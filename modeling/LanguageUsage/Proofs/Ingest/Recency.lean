import LanguageUsage.Proofs.Ingest.Order

/-!
# What the memory forgets

A request uses its notification when it is recorded, and when it is skipped. The memory goes by the first kind of use
only: the notification that was recorded longest ago is forgotten first, however often its requests were skipped since.

* `Use`, `Use.record?`, `recordedKeys`: uses, and what is recorded of them;
* `Updater.uses`, `Updater.history_eq_uses`: the uses of a run, and its history;
* `Updater.mem_memory_iff`: what is left of a notification that was recorded;
* `Updater.forgets_longest_recorded`: what is forgotten after any run;
* `Updater.replayed_key_forgotten`: a notification that was used last but one.
-/

namespace LanguageUsage

/-- A use of a notification: with the time that is recorded, or without one if the request is skipped. -/
abbrev Use := Value × Option Int

/-- What is recorded. -/
def Use.record? (e : Use) : Option (Value × Int) := e.2.map fun t => (e.1, t)

/-- The notifications that are recorded, in order. -/
def recordedKeys (es : List Use) : List Value := (es.filterMap Use.record?).map Prod.fst

variable {h : List (Value × Int)} {key : Value} {N : Nat}

theorem recordedKeys_subset (es : List Use) : recordedKeys es ⊆ es.map Prod.fst := by
  intro k hk
  obtain ⟨⟨_, t⟩, hrecord, rfl⟩ := List.mem_map.1 hk
  obtain ⟨e, he, heq⟩ := List.mem_filterMap.1 hrecord
  obtain ⟨s, -, hs⟩ := Option.map_eq_some_iff.1 heq
  exact List.mem_map.2 ⟨e, he, congrArg Prod.fst hs⟩

/-- The last entry under a key is there once. -/
theorem eq_of_last {before after before' after' : List (Value × Int)} {s t : Int}
    (heq : before ++ (key, s) :: after = before' ++ (key, t) :: after') (hafter : key ∉ after.map Prod.fst)
    (hafter' : key ∉ after'.map Prod.fst) : t = s ∧ after' = after := by
  have hnot : ∀ {x as bs : List (Value × Int)} {t : Int}, as = x ++ (key, t) :: bs → key ∈ as.map Prod.fst := by
    rintro x _ bs t rfl
    simp
  rcases List.append_eq_append_iff.1 heq with ⟨between, -, hrest⟩ | ⟨between, -, hrest⟩
  · cases between with
    | nil =>
      obtain ⟨hpair, rfl⟩ := List.cons.inj hrest
      exact ⟨(Prod.mk.inj hpair).2.symm, rfl⟩
    | cons e es => exact absurd (hnot (List.cons.inj hrest).2) hafter
  · cases between with
    | nil =>
      obtain ⟨hpair, rfl⟩ := List.cons.inj hrest
      exact ⟨(Prod.mk.inj hpair).2, rfl⟩
    | cons e es => exact absurd (hnot (List.cons.inj hrest).2) hafter'

/-- What was recorded last under a key is remembered as long as fewer than `N` other keys are recorded after it. -/
theorem remembered_iff {before after : List (Value × Int)} {last t : Int} (hafter : key ∉ after.map Prod.fst) :
    Remembered N (before ++ (key, last) :: after) key t ↔ t = last ∧ (after.map Prod.fst).dedup.length < N := by
  constructor
  · rintro ⟨before', after', heq, hafter', hlt⟩
    obtain ⟨rfl, rfl⟩ := eq_of_last heq hafter hafter'
    exact ⟨rfl, hlt⟩
  · rintro ⟨rfl, hlt⟩
    exact ⟨before, after, rfl, hafter, hlt⟩

namespace Updater

variable {u : Updater} {c : Call} {cs : List Call} {request : Request}

/-! ### Uses -/

/-- The use that a call makes of its notification. -/
def use? (u : Updater) (c : Call) : Option Use :=
  match c with
  | .classify _ => none
  | .converse request _ =>
    if u.skips request then some (request.key u.policy.defaultKey, none)
    else (u.recorded? c).map fun e => (e.1, some e.2)

/-- The uses of calls that are performed one after another. -/
def uses (u : Updater) : List Call → List Use
  | [] => []
  | c :: cs => (u.use? c).toList ++ (u.perform c).updater.uses cs

theorem recorded?_eq_use? (u : Updater) (c : Call) : u.recorded? c = (u.use? c).bind Use.record? := by
  cases c with
  | classify tags => rfl
  | converse request d =>
    rw [use?]
    cases hskip : u.skips request with
    | true => simp [recorded?, hskip, Use.record?]
    | false =>
      rw [if_neg Bool.false_ne_true]
      cases u.recorded? (.converse request d) <;> rfl

/-- The history of a run is what is recorded of its uses. -/
theorem history_eq_uses (u : Updater) (cs : List Call) : u.history cs = (u.uses cs).filterMap Use.record? := by
  induction cs generalizing u with
  | nil => rfl
  | cons c cs ih =>
    rw [history, uses, List.filterMap_append, ih, recorded?_eq_use?]
    cases huse : u.use? c with
    | none => rfl
    | some e => cases hrecord : e.record? <;> simp [hrecord]

/-- Every use is made by a call of the run. -/
theorem exists_of_uses_eq {before after : List Use} {e : Use} (heq : u.uses cs = before ++ e :: after) :
    ∃ cs₁ c cs₂, cs = cs₁ ++ c :: cs₂ ∧ u.uses cs₁ = before ∧ (u.performAll cs₁).1.use? c = some e := by
  induction cs generalizing u before with
  | nil => cases before <;> cases heq
  | cons c cs ih =>
    rw [uses] at heq
    cases huse : u.use? c with
    | none =>
      rw [huse] at heq
      obtain ⟨cs₁, c', cs₂, rfl, hbefore, he⟩ := ih heq
      refine ⟨c :: cs₁, c', cs₂, rfl, ?_, he⟩
      rw [uses, huse, hbefore]
      rfl
    | some e' =>
      rw [huse] at heq
      cases before with
      | nil =>
        obtain ⟨rfl, -⟩ := List.cons.inj heq
        exact ⟨[], c, cs, rfl, rfl, huse⟩
      | cons e'' before =>
        obtain ⟨rfl, hrest⟩ := List.cons.inj heq
        obtain ⟨cs₁, c', cs₂, rfl, hbefore, he⟩ := ih hrest
        refine ⟨c :: cs₁, c', cs₂, rfl, ?_, he⟩
        rw [uses, huse, hbefore]
        rfl

/-! ### Forgetting -/

/-- What is remembered after a run is found in its history. -/
theorem memory_of_run (hs : u.suppresses = true) (hN : u.policy.capacity.number? = some (.whole N))
    (hm : u.memory = []) (cs : List Call) : (u.performAll cs).1.memory = (lastEntries (u.history cs)).rtake N := by
  have hrun := memory_performAll (h := []) hs hN (hm.trans (List.rtake_nil N).symm) cs
  rwa [List.nil_append] at hrun

/-- A request is skipped because of what is remembered. -/
theorem skips_iff_remembered (hs : u.suppresses = true) (hm : u.memory = (lastEntries h).rtake N)
    (hkey : request.isKeyed u.policy.defaultKey = true) : u.skips request = true ↔
      ∃ t last, request.latest.map Moment.instant = some t ∧
        Remembered N h (request.key u.policy.defaultKey) last ∧ t ≤ last := by
  rw [skips, isReplay_eq hs, hkey, hm]
  exact ReplayMemory.isReplay_iff

theorem remembered_of_skip (hs : u.suppresses = true) (hm : u.memory = (lastEntries h).rtake N)
    (hskip : u.use? c = some (key, none)) : ∃ t, Remembered N h key t := by
  cases c with
  | classify tags => cases hskip
  | converse request d =>
    rw [use?] at hskip
    split at hskip
    · next hskips =>
      obtain rfl := (Prod.mk.inj (Option.some.inj hskip)).1
      cases hkey : request.isKeyed u.policy.defaultKey with
      | true =>
        obtain ⟨-, last, -, hremembered, -⟩ := (skips_iff_remembered hs hm hkey).1 hskips
        exact ⟨last, hremembered⟩
      | false =>
        rw [skips, isReplay_eq hs, hkey] at hskips
        cases hskips
    · obtain ⟨e, -, he⟩ := Option.map_eq_some_iff.1 hskip
      cases (Prod.mk.inj he).2

theorem history_of_uses_eq {before after : List Use} {last : Int}
    (heq : u.uses cs = before ++ (key, some last) :: after) :
    u.history cs = before.filterMap Use.record? ++ (key, last) :: after.filterMap Use.record? := by
  rw [history_eq_uses, heq, List.filterMap_append]
  rfl

/-- What was recorded under a notification is forgotten when `N` others are recorded after it. -/
theorem mem_memory_iff (hs : u.suppresses = true) (hN : u.policy.capacity.number? = some (.whole N))
    (hm : u.memory = []) {before after : List Use} {last : Int}
    (heq : u.uses cs = before ++ (key, some last) :: after) (hafter : key ∉ recordedKeys after) (t : Int) :
    (key, t) ∈ (u.performAll cs).1.memory ↔ t = last ∧ (recordedKeys after).dedup.length < N := by
  rw [memory_of_run hs hN hm, mem_rtake_lastEntries, history_of_uses_eq heq]
  exact remembered_iff hafter

/-- A notification that is skipped by the last call of a run is remembered. -/
theorem exists_mem_memory_of_skip (hs : u.suppresses = true) (hN : u.policy.capacity.number? = some (.whole N))
    (hm : u.memory = []) {before : List Use} (heq : u.uses cs = before ++ [(key, none)]) :
    ∃ t, (key, t) ∈ (u.performAll cs).1.memory := by
  obtain ⟨cs₁, c, -, -, hbefore, hskip⟩ := exists_of_uses_eq heq
  have hhistory : u.history cs = u.history cs₁ := by
    rw [history_eq_uses, history_eq_uses, heq, hbefore, List.filterMap_append]
    exact List.append_nil _
  obtain ⟨t, hremembered⟩ :=
    remembered_of_skip (by rw [suppresses_performAll, hs]) (memory_of_run hs hN hm cs₁) hskip
  refine ⟨t, ?_⟩
  rwa [memory_of_run hs hN hm, mem_rtake_lastEntries, hhistory]

/-- A request that is not newer than what was recorded is skipped as long as this is remembered. -/
theorem skips_iff_length_lt (hs : u.suppresses = true) (hN : u.policy.capacity.number? = some (.whole N))
    (hm : u.memory = []) {before after : List Use} {last t : Int}
    (heq : u.uses cs = before ++ (key, some last) :: after) (hafter : key ∉ recordedKeys after)
    (hkey : request.key u.policy.defaultKey = key) (ht : request.latest.map Moment.instant = some t)
    (hle : t ≤ last) : (u.performAll cs).1.skips request = true ↔
      request.isKeyWritable = true ∧ (recordedKeys after).dedup.length < N := by
  subst hkey
  have hpolicy : (u.performAll cs).1.policy = u.policy := u.policy_performAll cs
  have hisKey : (request.key u.policy.defaultKey).isKey = true :=
    isKey_of_mem_history hs (history_of_uses_eq heq ▸ List.mem_append_right _ List.mem_cons_self)
  have hsv : (u.performAll cs).1.suppresses = true := by rw [suppresses_performAll, hs]
  cases hwritable : request.isKeyWritable with
  | false =>
    rw [skips, isReplay_eq hsv, Request.isKeyed, hwritable]
    exact ⟨fun h => Bool.noConfusion h, fun h => Bool.noConfusion h.1⟩
  | true =>
    have hkeyed : request.isKeyed (u.performAll cs).1.policy.defaultKey = true := by
      rw [Request.isKeyed, hwritable, hpolicy, hisKey]
      rfl
    rw [skips_iff_remembered hsv (memory_of_run hs hN hm cs) hkeyed, hpolicy, ht, history_of_uses_eq heq]
    constructor
    · rintro ⟨_, _, -, hremembered, -⟩
      exact ⟨rfl, ((remembered_iff hafter).1 hremembered).2⟩
    · rintro ⟨-, hlt⟩
      exact ⟨t, last, rfl, (remembered_iff hafter).2 ⟨rfl, hlt⟩, hle⟩

/-- What is forgotten after its last use, if this use was recorded, is followed by `N` others. -/
theorem le_length_of_forgotten (hs : u.suppresses = true) (hN : u.policy.capacity.number? = some (.whole N))
    (hm : u.memory = []) {before after : List Use} {last : Option Int}
    (heq : u.uses cs = before ++ (key, last) :: after) (hafter : key ∉ after.map Prod.fst)
    (hforgotten : ∀ t, (key, t) ∉ (u.performAll cs).1.memory) (hlast : last ≠ none ∨ N ≤ 1) :
    N ≤ (after.map Prod.fst).dedup.length := by
  cases last with
  | some last =>
    have hrecorded : key ∉ recordedKeys after := fun hmem => hafter (recordedKeys_subset after hmem)
    have hle : N ≤ (recordedKeys after).dedup.length := by
      by_contra hlt
      exact hforgotten last ((mem_memory_iff hs hN hm heq hrecorded last).2 ⟨rfl, Nat.not_le.1 hlt⟩)
    exact hle.trans (length_dedup_le_of_subset (recordedKeys_subset after))
  | none =>
    -- only one can be remembered, and after the last use of the run it is this one
    refine (hlast.resolve_left (fun h => h rfl)).trans ?_
    cases after with
    | nil =>
      obtain ⟨t, hmem⟩ := exists_mem_memory_of_skip hs hN hm heq
      exact absurd hmem (hforgotten t)
    | cons e es =>
      have hmem : e.1 ∈ ((e :: es).map Prod.fst).dedup := List.mem_dedup.2 (by simp)
      exact List.length_pos_of_mem hmem

/-- **What is forgotten.** An updater that skips replays and remembers at most `N` notifications has performed any
calls. Let something be recorded of a notification, and nothing more of it after this. Then it is remembered, and its
requests up to the recorded time are skipped if they write its name, exactly as long as fewer than `N` other
notifications are recorded after this; the requests of it that are skipped in the meantime change nothing.

So a notification that was used and is forgotten was followed by uses of `N` others if its last use was recorded. If its
last use was skipped, this is certain only of a memory for at most one notification. -/
theorem forgets_longest_recorded (hs : u.suppresses = true) (hN : u.policy.capacity.number? = some (.whole N))
    (hm : u.memory = []) (cs : List Call) (key : Value) :
    let v := (u.performAll cs).1
    (∀ before last after, u.uses cs = before ++ (key, some last) :: after → key ∉ recordedKeys after →
      (∀ t, (key, t) ∈ v.memory ↔ t = last ∧ (recordedKeys after).dedup.length < N) ∧
      ∀ (request : Request) t, request.key u.policy.defaultKey = key →
        request.latest.map Moment.instant = some t → t ≤ last →
          (v.skips request = true ↔ request.isKeyWritable = true ∧ (recordedKeys after).dedup.length < N)) ∧
    ∀ before last after, u.uses cs = before ++ (key, last) :: after → key ∉ after.map Prod.fst →
      (∀ t, (key, t) ∉ v.memory) → last ≠ none ∨ N ≤ 1 → N ≤ (after.map Prod.fst).dedup.length := by
  intro v
  refine ⟨fun before last after heq hafter => ⟨mem_memory_iff hs hN hm heq hafter, ?_⟩, ?_⟩
  · intro request t hkey ht hle
    exact skips_iff_length_lt hs hN hm heq hafter hkey ht hle
  · intro before last after heq hafter hforgotten hlast
    exact le_length_of_forgotten hs hN hm heq hafter hforgotten hlast

/-- With room for two, a second notification is forgotten after a third and a fourth one. -/
theorem forgets_longest_recorded_of_second :
    let u : Updater := { store := .memory {}, policy := { suppressReplays := .bool true, capacity := .whole 2 } }
    let request (k : String) : Request :=
      { messages := [{ text := some "hi", time := some ⟨2026, 1, 2, 0, 0, 0, 0, none⟩ }]
        extras := [(notificationField, .text k)] }
    let cs := ["a", "b", "a", "c", "d"].map fun k => Call.converse (request k) .byScript
    let v := (u.performAll cs).1
    u.suppresses = true ∧ u.policy.capacity.number? = some (.whole (2 : Nat)) ∧ u.memory = [] ∧
      (∃ before t after, u.uses cs = before ++ (.text "b", some t) :: after ∧ .text "b" ∉ recordedKeys after ∧
        v.skips (request "b") = false ∧ 2 ≤ (after.map Prod.fst).dedup.length) := by
  intro u request cs v
  let t : Int := Moment.instant ⟨2026, 1, 2, 0, 0, 0, 0, none⟩
  let after : List Use := [(.text "a", none), (.text "c", some t), (.text "d", some t)]
  have huses : u.uses cs = [(.text "a", some t)] ++ (.text "b", some t) :: after := by decide +kernel
  have hrecorded : .text "b" ∉ recordedKeys after := by decide +kernel
  have hused : .text "b" ∉ after.map Prod.fst := by decide +kernel
  obtain ⟨hlast, hforgotten⟩ := forgets_longest_recorded (u := u) (N := 2) rfl rfl rfl cs (.text "b")
  obtain ⟨hmem, hskips⟩ := hlast _ _ _ huses hrecorded
  have hlength : ¬ (recordedKeys after).dedup.length < 2 := by decide +kernel
  have hskip := hskips (request "b") t (by decide +kernel) (by decide +kernel) le_rfl
  refine ⟨rfl, rfl, rfl, _, t, after, huses, hrecorded, ?_, ?_⟩
  · exact Bool.eq_false_iff.2 fun h => hlength (hskip.1 h).2
  · exact hforgotten _ _ _ huses hused (fun s hs => hlength ((hmem s).1 hs).2) (.inl (Option.some_ne_none t))

/-- With room for two, the notification that was used last but one is forgotten, and its request is counted again. -/
theorem replayed_key_forgotten :
    let u : Updater := { store := .memory {}, policy := { suppressReplays := .bool true, capacity := .whole 2 } }
    let request (k : String) : Request :=
      { messages := [{ text := some "hi", time := some ⟨2026, 1, 2, 0, 0, 0, 0, none⟩ }]
        extras := [(notificationField, .text k)] }
    let cs := ["a", "b", "a", "c"].map fun k => Call.converse (request k) .byScript
    let v := (u.performAll cs).1
    (u.uses cs).map (fun e => (e.1, e.2.isSome)) =
        [(.text "a", true), (.text "b", true), (.text "a", false), (.text "c", true)] ∧
      v.memory.map Prod.fst = [.text "b", .text "c"] ∧ v.skips (request "a") = false ∧
      (v.converse (request "a") .byScript).events = [.consulted "hi", .requested "en" .conversationActions] ∧
      (v.converse (request "a") .byScript).result = .ok () := by
  decide +kernel

end Updater

end LanguageUsage
