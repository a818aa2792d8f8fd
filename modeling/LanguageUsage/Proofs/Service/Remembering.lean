import LanguageUsage.Proofs.Service.Serial
import LanguageUsage.Proofs.Service.Unremembering

/-!
# Remembered times

A request is compared with what is remembered before its texts are detected, and its time is noted after they are
counted. In between others go on, and calls may fail, but what is remembered stays as it is: both happen under the
lock of the calls. So a time that is noted is newer than the one in whose place it comes.

* `ReplayMemory.get?_remember`: what is remembered after a newer time was noted;
* `Work.heeds_converse`, `Task.minds`, `Step.minds`: all processes of a service heed the lock of the calls;
* `World.Suppressing`: replays are skipped, and each notification is remembered once;
* `Course.Unfolds.advances`: the changes that are made in any course;
* `remembered_times_increase`: the times that are noted for a notification increase as long as it is remembered.
-/

namespace LanguageUsage

namespace ReplayMemory

variable {m : ReplayMemory} {key k : Value} {t q : Int}

theorem isReplay_eq_false_iff : m.isReplay key (some t) = false ↔ ∀ last, m.get? key = some last → last < t := by
  cases hlast : m.get? key <;> simp [isReplay, hlast]

theorem trimTo_suffix (capacity : Number) (m : ReplayMemory) : (trimTo capacity m).1 <:+ m := by
  induction m with
  | nil => exact List.suffix_refl _
  | cons e es ih =>
    unfold trimTo
    split
    · exact ih.trans (List.suffix_cons e es)
    · exact List.suffix_refl _

/-- Whatever the capacity is, what is remembered are the last entries. -/
theorem remember_suffix (m : ReplayMemory) (key : Value) (t : Int) (capacity : Value) :
    (m.remember key t capacity).1 <:+ m.note key t := by
  unfold remember trim
  split
  · exact trimTo_suffix _ _
  · exact List.suffix_refl _

theorem nodup_note (hm : (m.map Prod.fst).Nodup) (key : Value) (t : Int) : ((m.note key t).map Prod.fst).Nodup := by
  rw [note, List.map_append, List.nodup_append]
  refine ⟨hm.sublist (List.filter_sublist.map _), List.nodup_singleton _, ?_⟩
  rintro a ha b hb rfl
  obtain ⟨e, he, rfl⟩ := List.mem_map.1 ha
  have hkey : e.1 = key := by simpa using hb
  simpa [hkey] using (List.mem_filter.1 he).2

theorem nodup_remember (hm : (m.map Prod.fst).Nodup) (key : Value) (t : Int) (capacity : Value) :
    ((m.remember key t capacity).1.map Prod.fst).Nodup :=
  (nodup_note hm key t).sublist ((remember_suffix m key t capacity).sublist.map _)

/-- Where a newer time was noted, it is remembered, and beside it nothing that was not remembered before. -/
theorem get?_remember (hm : (m.map Prod.fst).Nodup) (hnew : ∀ last, m.get? key = some last → last < t)
    {capacity : Value} (hget : (m.remember key t capacity).1.get? k = some q) :
    (k = key ∧ q = t) ∨ (k ≠ key ∧ m.get? k = some q) := by
  have hmem := (get?_eq_some_iff (nodup_remember hm key t capacity)).1 hget
  have hnote := (remember_suffix m key t capacity).subset hmem
  rw [note_of_isReplay_eq_false (isReplay_eq_false_iff.2 hnew)] at hnote
  rcases List.mem_append.1 hnote with hold | hnew
  · obtain ⟨hold, hne⟩ := List.mem_filter.1 hold
    exact .inr ⟨by simpa using hne, (get?_eq_some_iff hm).2 hold⟩
  · exact .inl (by simpa using hnew)

end ReplayMemory

/-! ### The processes of a service -/

namespace Work

open World

variable {α β : Type} {known : Option (Policy × ReplayMemory)} {x : Policy × ReplayMemory}

theorem heeds_bind {post : Option (Policy × ReplayMemory) → Except Fault β → Prop} (a : Work α) (f : α → Work β) :
    (a >>= f).run.Heeds memoryGuard post known ↔ a.run.Heeds memoryGuard (fun k r => match r with
      | .ok a => (f a).run.Heeds memoryGuard post k
      | .error e => post k (.error e)) known := by
  have hpost : (fun k r => (ExceptT.bindCont f r).Heeds memoryGuard post k) = fun k r => match r with
      | .ok a => (f a).run.Heeds memoryGuard post k
      | .error e => post k (.error e) := by
    funext k r
    cases r <;> rfl
  rw [← hpost]
  exact Process.heeds_bind a.run _

theorem heeds_given {post : Option (Policy × ReplayMemory) → Except Fault α → Prop} (r : Except Fault α) :
    (given r).run.Heeds memoryGuard post known ↔ post known r := .rfl

variable {post : Option (Policy × ReplayMemory) → Except Fault Unit → Prop}

/-- The time of a request that was counted is noted. -/
theorem run_remember (key : Value) (t : Int) : (remember key (some t)).run =
    .act (World.note key t) fun w => .done (w.updater.remember key (some t)).2 := rfl

/-- A time may be noted by one who knows that it is newer. -/
theorem heeds_remember {key : Value} {latest : Option Int}
    (hnew : x.1.suppressReplays.isTruthy = true → ∀ t, latest = some t → ∀ last, x.2.get? key = some last → last < t)
    (h : ∀ y r, post (some y) r) : (remember key latest).run.Heeds memoryGuard post (some x) := by
  cases latest with
  | none =>
    have hsame (w : World) : World.recalled { w with updater := (w.updater.remember key none).1 } = w.recalled := by
      rw [Updater.remember_none]
    exact (sparesMemory_atOnce hsame).heeds fun r => h x r
  | some t =>
    rw [run_remember]
    intro w hw
    have hknown : w.recalled = x := hw x rfl
    refine ⟨⟨(w.updater.remember_fst key (some t)).2, .inr ⟨key, t, rfl⟩, ?_⟩, nofun, h _ _⟩
    intro key' t' hnote hs last hlast
    obtain ⟨rfl, rfl⟩ := note_injective hnote
    subst hknown
    exact hnew hs t rfl last hlast

/-- **A request is compared with what is remembered when its time is noted**, however long it takes to count it. -/
theorem heeds_converse (request : Request) (d : Detector) (h : ∀ y r, post (some y) r) :
    (converse request d).run.Heeds memoryGuard post (some x) := by
  refine (heeds_bind _ _).2 fun w hw => ⟨(spares_of_recalled (fun _ => rfl) w).2, nofun, ?_⟩
  refine (heeds_bind _ _).2 ((heeds_given _).2 ?_)
  cases hreplay : w.updater.isReplay (request.key w.updater.policy.defaultKey) request with
  | error f => exact h _ _
  | ok replay =>
    cases replay with
    | true => exact h _ _
    | false =>
      refine (heeds_bind _ _).2 ((sparesMemory_consult d _).heeds fun found => ?_)
      cases found with
      | error f => exact h _ _
      | ok tags =>
        refine (heeds_bind _ _).2 ((sparesMemory_incrementEach _ _).heeds fun counted => ?_)
        cases counted with
        | error f => exact h _ _
        | ok _ =>
          refine heeds_remember (fun hs t ht => ?_) h
          have hsuppresses : w.updater.suppresses = true := hs
          rw [Updater.isReplay_eq hsuppresses, ht] at hreplay
          split at hreplay
          · exact ReplayMemory.isReplay_eq_false_iff.1 (Except.ok.inj hreplay)
          · cases hreplay

end Work

/-- Whatever becomes of a call, it changes what is remembered only while it holds the lock. -/
theorem Call.minds (c : Call) : (Task.call c).activity.Minds World.memoryGuard none := by
  have hend : ∀ (y : Policy × ReplayMemory) (r : Except Fault Unit),
      (Call.handOn r).Heeds World.memoryGuard (fun k _ => k = none) (some y) :=
    fun y r => ⟨fun _ => ⟨Option.some_ne_none y, rfl⟩, fun hne => absurd rfl hne⟩
  show (Task.call c).work.run.Minds World.memoryGuard none
  rw [Call.work_task]
  refine ⟨fun _ => ⟨rfl, fun x => (Process.heeds_bind _ _).2 ?_⟩, fun hne => absurd rfl hne⟩
  cases c with
  | classify tags => exact (Work.sparesMemory_classify tags).heeds fun r => hend x r
  | converse request d => exact Work.heeds_converse request d hend

theorem Task.minds (t : Task) : t.activity.Minds World.memoryGuard none := by
  cases t with
  | operation o => exact o.sparesMemory_work.minds
  | call c => exact c.minds

/-- The processes with which steps are performed. -/
def Step.Performs (p : Activity) : Prop := ∃ s : Step, p = s.work.run

theorem Step.minds {p : Activity} (hp : Step.Performs p) : p.Minds World.memoryGuard none := by
  obtain ⟨s, rfl⟩ := hp
  exact s.sparesMemory_work.minds

/-! ### Courses -/

variable {l : Loop World Task Completion} {c d : Course World Task Completion} {fs : List (Change World)}

/-- **What a service does unfolds in changes**, whatever the step that it performs. -/
theorem Course.Unfolds.perform (h : Course.Unfolds Task.activity Step.Performs c fs d) (hd : d.Orderly) (s : Step)
    (turns : Nat) : ∃ gs begun, Course.Unfolds Task.activity Step.Performs c (fs ++ gs)
      ⟨(d.loop.perform Task.activity turns s.work.run).1, begun⟩ ∧
        Course.Orderly ⟨(d.loop.perform Task.activity turns s.work.run).1, begun⟩ := by
  have henter : Course.Orderly (d.enter Task.activity s.work.run) := hd.enter s.work.run
  obtain ⟨begun, hmoves, horderly⟩ := Course.moves_run Task.activity (n := turns) henter
  obtain ⟨gs, hgs⟩ := (h.enter ⟨s, rfl⟩).moves_all hmoves
  exact ⟨_, begun, by rwa [List.append_assoc] at hgs, horderly⟩

/-- Replays are skipped, and each notification is remembered once. -/
structure World.Suppressing (w : World) : Prop where
  suppresses : w.updater.suppresses = true
  nodup : (w.updater.memory.map Prod.fst).Nodup

namespace World.Advances

variable {f : World → World} {w : World} {key : Value} {p q : Int}

theorem suppressing (h : Advances f w) (hw : w.Suppressing) : (f w).Suppressing := by
  refine ⟨?_, ?_⟩
  · rw [Updater.suppresses, h.policy]
    exact hw.suppresses
  · rcases h.memory with hsame | ⟨key, t, rfl⟩
    · rw [hsame]
      exact hw.nodup
    · simp only [note, Updater.remember, hw.suppresses]
      exact ReplayMemory.nodup_remember hw.nodup _ _ _

/-- After a newer time was noted it is remembered, if there is room for it, and beside it only what was so before. -/
theorem get?_note {key' : Value} {t : Int} (h : Advances (note key' t) w) (hw : w.Suppressing)
    (hq : (note key' t w).updater.memory.get? key = some q) :
    (key = key' ∧ q = t) ∨ (key ≠ key' ∧ w.updater.memory.get? key = some q) := by
  simp only [note, Updater.remember, hw.suppresses] at hq
  exact ReplayMemory.get?_remember hw.nodup (h.newer key' t rfl hw.suppresses) hq

/-- **One change.** The time that is remembered for a notification stays, or a newer one takes its place. -/
theorem eq_or_lt (h : Advances f w) (hw : w.Suppressing) (hp : w.updater.memory.get? key = some p)
    (hq : (f w).updater.memory.get? key = some q) : q = p ∨ p < q ∧ f = note key q := by
  have hsame : w.updater.memory.get? key = some q → q = p := fun hget => by
    rw [hp] at hget
    exact (Option.some.inj hget).symm
  rcases h.memory with hmemory | ⟨key', t, rfl⟩
  · exact .inl (hsame (hmemory ▸ hq))
  · rcases h.get?_note hw hq with ⟨rfl, rfl⟩ | ⟨-, hget⟩
    · exact .inr ⟨h.newer key q rfl hw.suppresses p hp, rfl⟩
    · exact .inl (hsame hget)

end World.Advances

/-- **All changes of a course** leave what is remembered as it is, or note a newer time. -/
theorem Course.Unfolds.advances (hl : l.Idle) (hheld : Lock.calls ∉ l.held) (hw : l.state.Suppressing)
    (h : Course.Unfolds Task.activity Step.Performs ⟨l, []⟩ fs c) :
    ∀ f ∈ fs, World.Advances f.make f.before ∧ f.before.Suppressing := by
  have hadvances : ∀ f ∈ fs, World.Advances f.make f.before :=
    (h.allowed Task.minds (fun p => Step.minds) (hl.keeps hheld)).2
  have hsuppressing := h.chain.forall_before hw fun f hf => (hadvances f hf).suppressing
  exact fun f hf => ⟨hadvances f hf, hsuppressing.1 f hf⟩

/-- As long as a notification is remembered, its time is not replaced by an older one. -/
theorem le_of_remembered {key : Value} {t q : Int} {w v : World} {fs : List (Change World)}
    (hchain : Change.Chain w fs v) (hfs : ∀ f ∈ fs, World.Advances f.make f.before ∧ f.before.Suppressing)
    (hremembered : ∀ f ∈ fs, (f.before.updater.memory.get? key).isSome)
    (hw : ∀ p, w.updater.memory.get? key = some p → t ≤ p) (hq : v.updater.memory.get? key = some q) : t ≤ q := by
  refine (hchain.forall_before (P := fun w => ∀ p, w.updater.memory.get? key = some p → t ≤ p) hw ?_).2 q hq
  intro f hf hbefore p hp
  obtain ⟨last, hlast⟩ := Option.isSome_iff_exists.1 (hremembered f hf)
  rcases (hfs f hf).1.eq_or_lt (hfs f hf).2 hlast hp with rfl | ⟨hlt, -⟩
  · exact hbefore p hlast
  · exact (hbefore last hlast).trans (Int.le_of_lt hlt)

/-- **Remembered times increase.** Replays are skipped by a service with which nothing is going on. Any steps are
performed from then on, at any moments; the calls that they submit go on in any order, may fail, and may be followed by
others that were waiting. The memory may have any capacity.

Then what is remembered changes only by times that are noted, each when a call has counted its request. Whenever a time
is noted for a notification that is remembered, it is newer than the one that is remembered; so the comparison of the
two keeps none of the old. The time of a notification never changes but to a newer one, and of two times that are noted
for a notification the second is the newer one if the notification is remembered all the while between. -/
theorem remembered_times_increase (hl : l.Idle) (hheld : l.held = []) (hw : l.state.Suppressing)
    (h : Course.Unfolds Task.activity Step.Performs ⟨l, []⟩ fs c) :
    (∀ f ∈ fs, f.after.updater.memory = f.before.updater.memory ∨ ∃ key t, f.make = World.note key t) ∧
    (∀ f ∈ fs, ∀ key t, f.make = World.note key t →
      (∀ p, f.before.updater.memory.get? key = some p → p < t) ∧
        f.before.updater.memory.note key t = f.before.updater.memory.filter (fun e => e.1 ≠ key) ++ [(key, t)]) ∧
    (∀ f ∈ fs, ∀ key p q, f.before.updater.memory.get? key = some p → f.after.updater.memory.get? key = some q →
      q = p ∨ p < q ∧ f.make = World.note key q) ∧
    ∀ before f between g after key t u, fs = before ++ f :: (between ++ g :: after) → f.make = World.note key t →
      g.make = World.note key u → (∀ e ∈ between ++ [g], (e.before.updater.memory.get? key).isSome) → t < u := by
  have hlock : Lock.calls ∉ l.held := by rw [hheld]; exact List.not_mem_nil
  have hall := h.advances hl hlock hw
  have hnewer : ∀ f ∈ fs, ∀ key t, f.make = World.note key t → ∀ p, f.before.updater.memory.get? key = some p → p < t :=
    fun f hf key t hnote => (hall f hf).1.newer key t hnote (hall f hf).2.suppresses
  refine ⟨fun f hf => (hall f hf).1.memory, fun f hf key t hnote => ⟨hnewer f hf key t hnote, ?_⟩,
    fun f hf key p q hp hq => (hall f hf).1.eq_or_lt (hall f hf).2 hp hq, ?_⟩
  · exact ReplayMemory.note_of_isReplay_eq_false (ReplayMemory.isReplay_eq_false_iff.2 (hnewer f hf key t hnote))
  · rintro before f between g after key t u rfl hf hg hremembered
    have hmem : ∀ e ∈ f :: (between ++ [g]), e ∈ before ++ f :: (between ++ g :: after) := by
      intro e he
      simp only [List.mem_cons, List.mem_append, List.not_mem_nil, or_false] at he ⊢
      tauto
    -- from the state after the first of the two to the one before the second
    obtain ⟨s, -, -, hrest⟩ := Change.chain_append.1 h.chain
    obtain ⟨v, hbetween, rfl, -⟩ := Change.chain_append.1 hrest
    have hfirst := hall f (hmem f (by simp))
    obtain ⟨q, hq⟩ := Option.isSome_iff_exists.1 (hremembered g (by simp))
    have hle : t ≤ q := by
      refine le_of_remembered hbetween (fun e he => hall e (hmem e (by simp [he])))
        (fun e he => hremembered e (by simp [he])) (fun p hp => ?_) hq
      rw [Change.after, hf] at hp
      rcases (hf ▸ hfirst.1).get?_note hfirst.2 hp with ⟨-, rfl⟩ | ⟨hne, -⟩
      · exact Int.le_refl _
      · exact absurd rfl hne
    exact hle.trans_lt (hnewer g (hmem g (by simp)) key u hg q hq)

/-- Two requests of one notification are submitted together. The second one is newer, and its time is remembered. -/
theorem remembered_times_increase_of_batch :
    let l := (Service.ofUpdater { store := .memory {}, policy := { suppressReplays := .bool true } }).loop
    let request (day : Nat) : Request :=
      { messages := [{ text := some "hi", time := some ⟨2026, 1, day, 0, 0, 0, 0, none⟩ }]
        extras := [(notificationField, .text "a")] }
    let step := Step.batch [.ok (.converse (request 2) .byScript), .ok (.converse (request 3) .byScript)]
    ∃ fs c, l.Idle ∧ l.held = [] ∧ l.state.Suppressing ∧
      Course.Unfolds Task.activity Step.Performs ⟨l, []⟩ fs c ∧
      c.loop = (l.perform Task.activity 32 step.work.run).1 ∧
      c.loop.state.updater.memory = [(.text "a", Moment.instant ⟨2026, 1, 3, 0, 0, 0, 0, none⟩)] ∧
      ∀ f ∈ fs, ∀ key p q, f.before.updater.memory.get? key = some p → f.after.updater.memory.get? key = some q →
        q = p ∨ p < q ∧ f.make = World.note key q := by
  intro l request step
  have hidle : l.Idle := ⟨rfl, rfl, rfl, rfl, rfl⟩
  have hw : l.state.Suppressing := ⟨rfl, List.nodup_nil⟩
  have horderly : Course.Orderly ⟨l, []⟩ := (Service.quiescent_ofUpdater _ (by rintro s ⟨⟩)).orderly []
  have hmemory : (l.perform Task.activity 32 step.work.run).1.state.updater.memory =
      [(.text "a", Moment.instant ⟨2026, 1, 3, 0, 0, 0, 0, none⟩)] := by decide +kernel
  obtain ⟨fs, begun, hunfolds, -⟩ := (Course.Unfolds.start (c := ⟨l, []⟩)).perform horderly step 32
  generalize (l.perform Task.activity 32 step.work.run).1 = m at hmemory hunfolds ⊢
  exact ⟨_, ⟨m, begun⟩, hidle, rfl, hw, hunfolds, rfl, hmemory, (remembered_times_increase hidle rfl hw hunfolds).2.2.1⟩

end LanguageUsage
