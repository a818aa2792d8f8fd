import LanguageUsage.Proofs.Conversation.Omission
import LanguageUsage.Proofs.Ingest.History

/-!
# Messages with nothing to count

A message that is blank and names no notification is not counted, and has no say in where the others are counted.
It is left out without a difference where replays are not skipped, and otherwise as long as it is not what makes its
request the newest: its time is remembered like any other.

* `Call.Trims`: the same call without some such messages;
* `Updater.converse_congr`: what an updater uses of a request;
* `Updater.converse_silent`: a request of which nothing is found, which is recorded all the same;
* `Updater.idle_left_out`: when messages can be left out of the calls of a run.
-/

namespace LanguageUsage

/-- There is nothing to count in the message, and it names no notification. -/
def Message.IsIdle (m : Message) : Prop := m.isBlank = true ∧ declaredKey m.extras = none

/-- The second call is the first one without some idle messages. -/
inductive Call.Trims : Call → Call → Prop
  | classify (tags : List Value) : Trims (.classify tags) (.classify tags)
  | converse {request : Request} {ms : List Message} (detector : Detector)
      (h : LeavesOut Message.IsIdle request.messages ms) :
      Trims (.converse request detector) (.converse { request with messages := ms } detector)

/-- The point in time of the newest message of a call. -/
def Call.newest : Call → Option Int
  | .classify _ => none
  | .converse request _ => request.latest.map Moment.instant

theorem LeavesOut.refl (p : Message → Prop) : ∀ ms, LeavesOut p ms ms
  | [] => .nil
  | m :: ms => .keep m (refl p ms)

theorem Call.Trims.refl : ∀ c : Call, c.Trims c
  | .classify tags => .classify tags
  | .converse _ detector => .converse detector (.refl _ _)

/-- A detector that finds no language. -/
def Detector.silent : Detector where
  answer _ := .value .null

theorem Detector.consult_silent (texts : List String) : silent.consult texts = (texts, .ok []) := by
  induction texts with
  | nil => rfl
  | cons t ts ih =>
    simp only [consult, ih]
    rfl

/-- Where at most one time is remembered, a replay is not newer than this. -/
theorem ReplayMemory.isReplay_toList_iff {key : Value} {latest last : Option Int} :
    ReplayMemory.isReplay (last.map fun t => (key, t)).toList key latest = true ↔
      ∃ t s, latest = some t ∧ last = some s ∧ t ≤ s := by
  cases latest <;> cases last <;> simp [isReplay, get?]

namespace Updater

variable {u : Updater} {N : Nat}

/-! ### The same calls -/

theorem remember_of_not_suppresses (hs : u.suppresses = false) (key : Value) (latest : Option Int) :
    u.remember key latest = (u, .ok ()) := by
  simp only [remember, hs]

/-- Of a request an updater uses the notification, the texts and, if it skips replays, the newest time. -/
theorem converse_congr {r r' : Request} (hdeclared : r'.declared = r.declared) (htexts : r'.texts = r.texts)
    (hnewest : u.suppresses = true → r'.latest.map Moment.instant = r.latest.map Moment.instant)
    (detector : Detector) : u.converse r' detector = u.converse r detector := by
  have hkey := Request.key_congr hdeclared
  have hwritable := Request.isKeyWritable_congr hdeclared
  cases hs : u.suppresses with
  | false =>
    have hforgets : ∀ s key latest, { u with store := s }.remember key latest = ({ u with store := s }, .ok ()) :=
      fun s => remember_of_not_suppresses (u := { u with store := s }) hs
    have hreplay : ∀ key, u.isReplay key r' = u.isReplay key r := fun key => by
      simp only [isReplay, hs, hwritable, Bool.not_false, if_true]
    simp only [converse, hreplay, hkey, ingest, htexts, hforgets]
  | true => simp only [converse, isReplay, hwritable, hkey, ingest, htexts, hnewest hs]

/-- A call without some idle messages is performed in the same way. -/
theorem perform_trims {c c' : Call} (h : c.Trims c') (hnewest : u.suppresses = true → c'.newest = c.newest) :
    u.perform c' = u.perform c := by
  cases h with
  | classify tags => rfl
  | converse detector h =>
    exact converse_congr (h.declared_eq fun _ hm => hm.2) (h.texts_eq fun _ hm => hm.1) hnewest detector

theorem performAll_trims {cs cs' : List Call} (h : List.Forall₂ Call.Trims cs cs')
    (hnewest : u.suppresses = true → cs'.map Call.newest = cs.map Call.newest) :
    u.performAll cs' = u.performAll cs := by
  induction h generalizing u with
  | nil => rfl
  | @cons c c' cs cs' hc _ ih =>
    have hfirst : u.perform c' = u.perform c :=
      perform_trims hc fun hs => (List.cons_eq_cons.1 (hnewest hs)).1
    have hrest : (u.perform c).updater.performAll cs' = (u.perform c).updater.performAll cs := by
      refine ih fun hs => ?_
      rw [suppresses_perform] at hs
      exact (List.cons_eq_cons.1 (hnewest hs)).2
    rw [performAll, performAll, hfirst, hrest]

/-! ### A time that matters -/

/-- Where nothing is found, every text is asked for and the newest time remembered. -/
theorem converse_silent (hs : u.suppresses = true) {r : Request}
    (hkey : r.isKeyed u.policy.defaultKey = true)
    (hnew : u.memory.isReplay (r.key u.policy.defaultKey) (r.latest.map Moment.instant) = false) :
    u.converse r .silent =
      ⟨(u.remember (r.key u.policy.defaultKey) (r.latest.map Moment.instant)).1, r.texts.map .consulted,
        (u.remember (r.key u.policy.defaultKey) (r.latest.map Moment.instant)).2⟩ := by
  simp [converse_eq hs, skips, isReplay_eq hs, hkey, hnew, ingest, Detector.consult_silent, incrementEach,
    firstOccurrences]

/-- The newest time of the first request is all that is remembered then. -/
theorem converse_silent_first (hs : u.suppresses = true) (hN : u.policy.capacity.number? = some (.whole N))
    (hpos : 0 < N) (hm : u.memory = []) {r : Request} (hkey : r.isKeyed u.policy.defaultKey = true) :
    u.converse r .silent =
      ⟨{ u with memory := ((r.latest.map Moment.instant).map fun t => (r.key u.policy.defaultKey, t)).toList },
        r.texts.map .consulted, .ok ()⟩ := by
  have hnew : u.memory.isReplay (r.key u.policy.defaultKey) (r.latest.map Moment.instant) = false := by
    cases r.latest <;> simp [hm, ReplayMemory.isReplay, ReplayMemory.get?]
  have hempty : u.memory = (lastEntries []).rtake N := hm.trans (List.rtake_nil N).symm
  rw [converse_silent hs hkey hnew, remember_eq hs hN hempty _ _ hnew, List.nil_append]
  cases r.latest.map Moment.instant with
  | none => simp [lastEntries, List.rtake_nil]
  | some t =>
    have hall : (lastEntries [(r.key u.policy.defaultKey, t)]).rtake N = [(r.key u.policy.defaultKey, t)] :=
      rtake_of_length_le hpos
    simp only [Option.map_some, Option.toList_some, hall]

/-- A request with one more text, which is not newer. -/
def probe (r : Request) : Request := { r with messages := { text := some "x", time := r.latest } :: r.messages }

theorem declared_probe (r : Request) : (probe r).declared = r.declared :=
  (LeavesOut.declared_eq (r := probe r) (p := fun m => declaredKey m.extras = none) (.drop rfl (.refl _ _))
    fun _ h => h).symm

theorem texts_probe (r : Request) : (probe r).texts = "x" :: r.texts := by
  have hx : Text.isBlank "x" = false := by decide
  simp [Request.texts, probe, Message.isBlank, hx]

theorem latest_probe (r : Request) : (probe r).latest.map Moment.instant = r.latest.map Moment.instant := by
  cases hlatest : r.latest.map Moment.instant with
  | none =>
    rw [Request.latest_map_instant_eq_none_iff] at hlatest ⊢
    intro m hm
    rcases List.mem_cons.1 hm with rfl | hm
    · exact Option.map_eq_none_iff.1 (Request.latest_map_instant_eq_none_iff.2 hlatest)
    · exact hlatest m hm
  | some t =>
    refine Request.latest_map_instant_eq_some_iff.2 ⟨⟨_, List.mem_cons_self, hlatest⟩, fun m hm s hs => ?_⟩
    rcases List.mem_cons.1 hm with rfl | hm
    · exact (Option.some.inj (hs.symm.trans hlatest)).le
    · exact (Request.latest_map_instant_eq_some_iff.1 hlatest).2 m hm s hs

/-- After a first request of which nothing was found, a probe that belongs to the same notification is skipped if
that request was as new. -/
theorem converse_probe (hs : u.suppresses = true) (hN : u.policy.capacity.number? = some (.whole N))
    (hpos : 0 < N) (hm : u.memory = []) {r r' : Request} (hkey : r.isKeyed u.policy.defaultKey = true)
    (hsame : r'.declared = r.declared) :
    (u.performAll [.converse r' .silent, .converse (probe r) .silent]).2.1 = r'.texts.map .consulted ↔
      ∃ t last, r.latest.map Moment.instant = some t ∧ r'.latest.map Moment.instant = some last ∧ t ≤ last := by
  let v : Updater :=
    { u with memory := ((r'.latest.map Moment.instant).map fun t => (r.key u.policy.defaultKey, t)).toList }
  have hfirst : u.converse r' .silent = ⟨v, r'.texts.map .consulted, .ok ()⟩ := by
    have hkey' : r'.isKeyed u.policy.defaultKey = true := (Request.isKeyed_congr hsame _).trans hkey
    rw [converse_silent_first hs hN hpos hm hkey', Request.key_congr hsame]
  have hsv : v.suppresses = true := hs
  have hkeyv : (probe r).isKeyed v.policy.defaultKey = true := (Request.isKeyed_congr (declared_probe r) _).trans hkey
  have hreplay : v.memory.isReplay ((probe r).key v.policy.defaultKey) ((probe r).latest.map Moment.instant) = true ↔
      ∃ t last, r.latest.map Moment.instant = some t ∧ r'.latest.map Moment.instant = some last ∧ t ≤ last := by
    rw [latest_probe, Request.key_congr (declared_probe r)]
    exact ReplayMemory.isReplay_toList_iff
  have hskips : v.skips (probe r) = v.memory.isReplay ((probe r).key v.policy.defaultKey)
      ((probe r).latest.map Moment.instant) := by
    simp [skips, isReplay_eq hsv, hkeyv]
  have hevents : (u.performAll [.converse r' .silent, .converse (probe r) .silent]).2.1 =
      r'.texts.map .consulted ++ (v.converse (probe r) .silent).events := by
    simp [performAll, perform, hfirst]
  rw [hevents, List.append_right_eq_self, ← hreplay]
  cases hold : v.memory.isReplay ((probe r).key v.policy.defaultKey) ((probe r).latest.map Moment.instant) with
  | true => simp [converse_eq hsv, hskips, hold]
  | false => simp [converse_silent hsv hkeyv hold, texts_probe]

/-- **Messages with nothing to count.** From the requests of a run messages can be left out that are blank and name
no notification: every call is performed as before if replays are not skipped, or no request becomes older by it.

Otherwise the difference is seen: a request that becomes older is remembered with another time, and there is a
later call that is skipped because of a time at which there was nothing to count. -/
theorem idle_left_out (u : Updater) :
    (∀ cs cs', List.Forall₂ Call.Trims cs cs' → (u.suppresses = true → cs'.map Call.newest = cs.map Call.newest) →
      u.performAll cs' = u.performAll cs) ∧
    ∀ N : Nat, 0 < N → u.policy.capacity.number? = some (.whole N) → u.suppresses = true → u.memory = [] →
      ∀ r ms, LeavesOut Message.IsIdle r.messages ms → r.isKeyed u.policy.defaultKey = true →
        ((∀ detector c, (u.performAll [.converse { r with messages := ms } detector, c]).2 =
            (u.performAll [.converse r detector, c]).2) ↔
          (Request.latest { r with messages := ms }).map Moment.instant = r.latest.map Moment.instant) := by
  refine ⟨fun cs cs' => performAll_trims, fun N hpos hN hs hm r ms hr hkey => ⟨fun hsame => ?_, fun hnewest => ?_⟩⟩
  · let r' : Request := { r with messages := ms }
    have htexts : r'.texts = r.texts := hr.texts_eq fun _ h => h.1
    have hdeclared : r'.declared = r.declared := hr.declared_eq fun _ h => h.2
    cases hlatest : r.latest.map Moment.instant with
    | none =>
      by_contra hne
      obtain ⟨t, ht⟩ := Option.ne_none_iff_exists'.1 hne
      obtain ⟨t', ht', -⟩ := hr.latest_le ht
      rw [hlatest] at ht'
      cases ht'
    | some t =>
      -- the request itself hides its probe, so the one without the messages does
      have hhides := (converse_probe hs hN hpos hm hkey rfl).2 ⟨t, t, hlatest, hlatest, Int.le_refl t⟩
      have hevents := congrArg Prod.fst (hsame .silent (.converse (probe r) .silent))
      rw [hhides, ← htexts, converse_probe hs hN hpos hm hkey hdeclared, hlatest] at hevents
      obtain ⟨_, last, ⟨⟩, hlast, hle⟩ := hevents
      obtain ⟨_, hsome, hge⟩ := hr.latest_le hlast
      rw [hlatest, Option.some.injEq] at hsome
      rw [hlast, Option.some.injEq]
      omega
  · intro detector c
    have htrims : List.Forall₂ Call.Trims [.converse r detector, c] [.converse { r with messages := ms } detector, c] :=
      .cons (.converse detector hr) (.cons (.refl c) .nil)
    rw [performAll_trims htrims fun _ => by simp only [List.map_cons, Call.newest, hnewest]]

/-- A blank message that is older than the others is left out, and one that is newer makes a difference. -/
theorem idle_left_out_of_blank :
    let u : Updater := { store := .memory {}, policy := { suppressReplays := .bool true } }
    let detector : Detector := { answer := fun _ => .value (.text "en") }
    let old : Message := { text := some " ", time := some ⟨2026, 1, 1, 0, 0, 0, 0, none⟩ }
    let timed : Message := { text := some "hi", time := some ⟨2026, 1, 2, 0, 0, 0, 0, none⟩ }
    let new : Message := { text := none, time := some ⟨2026, 1, 4, 0, 0, 0, 0, none⟩ }
    u.performAll [.converse { messages := [timed] } detector] =
        u.performAll [.converse { messages := [old, timed] } detector] ∧
      ¬ ∀ detector c, (u.performAll [.converse { messages := [timed] } detector, c]).2 =
        (u.performAll [.converse { messages := [timed, new] } detector, c]).2 := by
  intro u detector old timed new
  have hold : old.IsIdle := ⟨by decide +kernel, rfl⟩
  have hnew : new.IsIdle := ⟨rfl, rfl⟩
  constructor
  · refine (idle_left_out u).1 _ _ (.cons (.converse detector (.drop hold (.refl _ _))) .nil) fun _ => ?_
    decide +kernel
  · have hiff := (idle_left_out u).2 256 (by decide) rfl rfl rfl { messages := [timed, new] } [timed]
      (.keep timed (.drop hnew .nil)) rfl
    rw [hiff]
    decide +kernel

/-- Because of the time of a blank message a message is skipped that was never counted, and another one is counted
twice. -/
theorem blank_message_matters :
    let u : Updater := { store := .memory {}, policy := { suppressReplays := .bool true } }
    let detector : Detector := { answer := fun _ => .value (.text "en") }
    let hi : Message := { text := some "hi", time := some ⟨2026, 1, 2, 0, 0, 0, 0, none⟩ }
    let hello : Message := { text := some "hello", time := some ⟨2026, 1, 3, 0, 0, 0, 0, none⟩ }
    let blank : Message := { text := some " ", time := some ⟨2026, 1, 4, 0, 0, 0, 0, none⟩ }
    let run (requests : List (List Message)) : Updater × List Event × List (Except Fault Unit) :=
      u.performAll (requests.map fun ms => .converse { messages := ms } detector)
    blank.isBlank = true ∧ declaredKey blank.extras = none ∧
      (run [[hi], [hello]]).2.1 = [.consulted "hi", .requested "en" .conversationActions,
        .consulted "hello", .requested "en" .conversationActions] ∧
      (run [[hi, blank], [hello]]).2.1 = [.consulted "hi", .requested "en" .conversationActions] ∧
      (run [[hi], [hi]]).2.1 = [.consulted "hi", .requested "en" .conversationActions] ∧
      (run [[hi], [hi, blank]]).2.1 = [.consulted "hi", .requested "en" .conversationActions,
        .consulted "hi", .requested "en" .conversationActions] := by
  decide +kernel

end Updater

end LanguageUsage
