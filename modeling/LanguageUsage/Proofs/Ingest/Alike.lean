import LanguageUsage.Proofs.Ingest.Idle
import LanguageUsage.Service.Ingest
import Mathlib.Data.List.Forall2

/-!
# Messages that say the same

Of a message only three things are used: its text, the point in time at which it was sent, and the notification that it
names. Who wrote it, by which clock its time is given, and what else is noted about it makes no difference, to no call
of a run.

* `Message.Alike`, `Request.Alike`, `Call.Alike`: the same as far as it is used;
* `Request.Alike.latest_eq`: the newest time is the same point in time, although another message may have it;
* `Call.Alike.work_eq`: such calls are the same process, so they also fit in with others in the same way;
* `Updater.alike_runs`: and the same run.
-/

namespace LanguageUsage

/-- Two moments are the same point in time if their clocks are apart as far as their offsets. -/
theorem Moment.instant_eq_iff {m n : Moment} :
    m.instant = n.instant ↔ m.clock - n.clock = (m.offset.getD 0 - n.offset.getD 0) * 1000000 := by
  unfold instant
  omega

/-- The second message has the text of the first one, was sent at the same point in time, and names the same
notification. -/
structure Message.Alike (m m' : Message) : Prop where
  text : m'.text = m.text
  instant : m'.instant? = m.instant?
  key : m'.extras.get? notificationField = m.extras.get? notificationField

/-- The messages of the second request are alike to those of the first one, and it names the same notification. -/
structure Request.Alike (r r' : Request) : Prop where
  messages : List.Forall₂ Message.Alike r.messages r'.messages
  key : r'.extras.get? notificationField = r.extras.get? notificationField

/-- The second call is the first one, but for a request that is alike. -/
inductive Call.Alike : Call → Call → Prop
  | classify (tags : List Value) : Alike (.classify tags) (.classify tags)
  | converse {request request' : Request} (detector : Detector) (h : request.Alike request') :
      Alike (.converse request detector) (.converse request' detector)

theorem declaredKey_congr {extras extras' : Value.Fields}
    (h : extras'.get? notificationField = extras.get? notificationField) :
    declaredKey extras' = declaredKey extras := by
  rw [declaredKey, h, declaredKey]

namespace Message.Alike

variable {m m' : Message} {ms ms' : List Message}

theorem isBlank_eq (h : m.Alike m') : m'.isBlank = m.isBlank := by
  rw [isBlank, h.text, isBlank]

/-- What is read off each message is the same if it is the same for messages that are alike. -/
theorem filterMap_eq {α : Type} (h : List.Forall₂ Message.Alike ms ms') {f : Message → Option α}
    (hf : ∀ m m', m.Alike m' → f m' = f m) : ms'.filterMap f = ms.filterMap f := by
  induction h with
  | nil => rfl
  | cons hm _ ih => rw [List.filterMap_cons, List.filterMap_cons, hf _ _ hm, ih]

end Message.Alike

namespace Request.Alike

variable {r r' : Request}

theorem declared_eq (h : r.Alike r') : r'.declared = r.declared := by
  have hfind : (r'.messages.findSome? fun m => declaredKey m.extras) =
      r.messages.findSome? fun m => declaredKey m.extras := by
    rw [← List.head?_filterMap, ← List.head?_filterMap,
      Message.Alike.filterMap_eq h.messages fun _ _ hm => declaredKey_congr hm.key]
  rw [declared, declaredKey_congr h.key, hfind, declared]

theorem texts_eq (h : r.Alike r') : r'.texts = r.texts := by
  refine Message.Alike.filterMap_eq h.messages fun m m' hm => ?_
  rw [hm.isBlank_eq, hm.text]

/-- The newest times are the same point in time. -/
theorem latest_eq (h : r.Alike r') : r'.latest.map Moment.instant = r.latest.map Moment.instant := by
  rw [latest_map_instant, latest_map_instant, Message.Alike.filterMap_eq h.messages fun _ _ hm => hm.instant]

end Request.Alike

/-- Calls that are alike are the same process. -/
theorem Call.Alike.work_eq {c c' : Call} (h : c.Alike c') : c'.work = c.work := by
  cases h with
  | classify tags => rfl
  | converse detector h =>
    simp only [Call.work, Work.converse, Updater.isReplay, Request.key_congr h.declared_eq,
      Request.isKeyWritable_congr h.declared_eq, h.texts_eq, h.latest_eq]

namespace Updater

/-- A call that is alike is performed in the same way. -/
theorem perform_alike (u : Updater) {c c' : Call} (h : c.Alike c') : u.perform c' = u.perform c := by
  cases h with
  | classify tags => rfl
  | converse detector h => exact converse_congr h.declared_eq h.texts_eq (fun _ => h.latest_eq) detector

/-- **Messages that say the same.** Two runs of an updater agree if their calls are alike one by one: they differ in
nothing but the authors of messages, the notes about messages and requests other than the notification, and the way in
which points in time are written. Whether replays are skipped, and how many notifications are remembered, does not
matter. Every call has the same result, detectors are asked for the same texts and the store for the same tags in the
same order, and the updater is the same in the end, with all rows. -/
theorem alike_runs {cs cs' : List Call} (h : List.Forall₂ Call.Alike cs cs') :
    (∀ u : Updater, u.performAll cs' = u.performAll cs) ∧ cs'.map Call.work = cs.map Call.work := by
  constructor
  · intro u
    induction h generalizing u with
    | nil => rfl
    | cons hc _ ih => rw [performAll, performAll, perform_alike u hc, ih]
  · induction h with
    | nil => rfl
    | cons hc _ ih => rw [List.map_cons, List.map_cons, hc.work_eq, ih]

/-- One time is written in three ways: without an offset, as universal time, and by a clock that is ahead. The same
messages are replays, whoever wrote them. -/
theorem alike_runs_of_rewritten_times :
    let u : Updater := { store := .memory {}, policy := { suppressReplays := .bool true } }
    let detector : Detector := { answer := fun _ => .value (.text "en") }
    let moment (hour : Int) (offset : Option Int) : Moment := ⟨2026, 1, 2, hour, 0, 0, 0, offset⟩
    let message (author : String) (m : Moment) : Message :=
      { text := some "hi", author := .text author, time := some m,
        extras := [(notificationField, .text "n"), ("by", .text author)] }
    let said (author : String) (m : Moment) : Call := .converse { messages := [message author m] } detector
    let cs := [said "a" (moment 0 none), said "a" (moment 0 (some 0)), said "a" (moment 1 none)]
    let cs' := [said "b" (moment 0 (some 0)), said "c" (moment 2 (some 7200)), said "d" (moment 23 (some 79200))]
    List.Forall₂ Call.Alike cs cs' ∧ u.performAll cs' = u.performAll cs ∧
      (u.performAll cs).2.1 = [.consulted "hi", .requested "en" .conversationActions,
        .consulted "hi", .requested "en" .conversationActions] := by
  intro u detector moment message said cs cs'
  have hsaid : ∀ a a' m m', m'.instant = m.instant → (said a m).Alike (said a' m') := fun a a' m m' hinstant =>
    .converse detector ⟨.cons ⟨rfl, congrArg some hinstant, rfl⟩ .nil, rfl⟩
  have halike : List.Forall₂ Call.Alike cs cs' :=
    .cons (hsaid _ _ _ _ (Moment.instant_eq_iff.2 (by decide)))
      (.cons (hsaid _ _ _ _ (Moment.instant_eq_iff.2 (by decide)))
        (.cons (hsaid _ _ _ _ (Moment.instant_eq_iff.2 (by decide))) .nil))
  exact ⟨halike, (alike_runs halike).1 u, by decide +kernel⟩

end Updater

end LanguageUsage
