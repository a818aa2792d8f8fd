import LanguageUsage.Proofs.Service.Work
import LanguageUsage.Proofs.Service.Quiet
import LanguageUsage.Service.Ingest

/-!
# A call among others

A call in progress shares the state only with those who submit further calls. On these terms it does what
`Updater.perform` does, whoever goes on first.

* `World.callTerms`: what a call relies on, and what others can rely on;
* `Work.leads_upsert`, `Work.leads_consult`, `Work.leads_incrementEach`: the parts of a call;
* `Call.leads_part`: the call, while it holds the lock;
* `Call.childless`: no call starts tasks.
-/

namespace LanguageUsage

/-- On which terms a call is performed: others at most submit calls meanwhile, and the call leaves what
was submitted and what was asked before. -/
def World.callTerms : Terms World where
  rely w v := ∃ calls, v = w.withCalls calls
  guarantee w v := w.events <+: v.events ∧ v.calls = w.calls
  locks := [.writes]
  rely_refl w := ⟨w.calls, rfl⟩
  rely_trans := by
    rintro s t u ⟨calls, rfl⟩ ⟨calls', rfl⟩
    exact ⟨calls', rfl⟩
  guarantee_refl w := ⟨List.prefix_refl _, rfl⟩
  guarantee_trans := fun h h' => ⟨h.1.trans h'.1, h'.2.trans h.2⟩

namespace Work

open World

variable {α : Type} {held : List Lock} {w : World} {n : Nat} {i : Increment} {s : DatabaseStore}

/-! ### Writing -/

theorem leads_unlessEnded {T : Terms World} {post : List Lock → World → Except Fault Unit → Prop}
    {f : Fault} (hlive : w.link n = .live) (h : post held w (.ok ())) :
    (unlessEnded n f).run.Leads T post held w := by
  have hended : w.hasEnded n = false := by rw [hasEnded, hlive]; rfl
  rw [unlessEnded, leads_bind, leads_look, hended]
  exact h

/-- An errand that does not look at the calls. -/
theorem leads_later_callTerms {post : List Lock → World → Except Fault α → Prop}
    {brief : World → Bool} {f : World → World × Except Fault α} {v : World} {r : Except Fault α}
    (hf : ∀ calls, f (w.withCalls calls) = (v.withCalls calls, r)) (hevents : v.events = w.events)
    (h : ∀ calls, post held (v.withCalls calls) r) :
    (later brief f).run.Leads callTerms post held w := by
  rw [leads_later]
  rintro _ ⟨calls, rfl⟩
  rw [hf calls]
  refine ⟨⟨?_, rfl⟩, ?_⟩
  · show w.events <+: v.events
    rw [hevents]
  · rintro _ ⟨calls', rfl⟩
    exact h calls'

section Database

variable {post : List Lock → World → Except Fault Number → Prop}

theorem leads_insert_ok {m : Medium} {c : Number} (hs : w.store = .database s)
    (hlive : w.link n = .live) (hadd : s.medium.add i = (m, .ok c)) (hsaved : w.unsaved = none)
    (h : ∀ calls, post held ((w.withStore (.database { s with medium := m })).withCalls calls) (.ok c)) :
    (insert n i).run.Leads callTerms post held w := by
  let v : World := { w.withStore (.database { s with medium := m }) with unsaved := some (n, s.medium) }
  rw [insert, leads_bind]
  refine leads_later_callTerms (v := v) (r := .ok c) ?_ rfl fun calls => ?_
  · intro calls
    simp only [World.insert, store_withCalls, link_withCalls, hs, hlive, hadd]
    rfl
  refine (leads_bind _ _).2 (leads_unlessEnded hlive ((leads_bind _ _).2 ?_))
  refine leads_later_callTerms (v := w.withStore (.database { s with medium := m })) (r := .ok ())
    ?_ rfl h
  intro calls'
  have hv : (v.withCalls calls').link n = .live := hlive
  rw [withCalls_withCalls, commit, hv]
  show ({ v.withCalls calls' with unsaved := none }, _) = _
  simp only [v, World.withCalls, World.withStore, ← hsaved]

theorem leads_insert_error {m : Medium} {f : Fault} (hs : w.store = .database s)
    (hlive : w.link n = .live) (hadd : s.medium.add i = (m, .error f))
    (h : ∀ calls, post held (w.withCalls calls) (.error f)) :
    (insert n i).run.Leads callTerms post held w := by
  rw [insert, leads_bind]
  refine leads_later_callTerms (v := w) (r := .error f) (fun calls => ?_) rfl h
  simp only [World.insert, store_withCalls, link_withCalls, hs, hlive, hadd]

/-- A change is committed, or taken back. -/
theorem leads_write (hs : w.store = .database s) (hw : w.Quiet) (hlive : w.link n = .live)
    (h : ∀ calls, post held
      ((w.withStore (.database { s with medium := (s.medium.add i).1 })).withCalls calls)
      (s.medium.add i).2) :
    (write n i).run.Leads callTerms post held w := by
  rw [write, leads_tryCatch]
  cases hadd : s.medium.add i with
  | mk m r =>
    rw [hadd] at h
    cases r with
    | ok c => exact leads_insert_ok hs hlive hadd hw.saved h
    | error f =>
      have hm : w.withStore (.database { s with medium := m }) = w := by
        rw [Medium.eq_of_add_error hadd]
        exact withStore_eq_self hs
      rw [hm] at h
      refine leads_insert_error hs hlive hadd fun calls => ?_
      -- only this fault is answered with a roll back
      by_cases hf : f = .cannotIncrement i.tag i.kind
      · have hback : ∀ calls, World.rollBack n (w.withCalls calls) = (w.withCalls calls, .ok ()) := by
          intro calls
          rw [World.rollBack, link_withCalls, hlive]
          simp only [takeBack, unsaved_withCalls, hw.saved]
        simp only [if_pos hf]
        refine (leads_bind _ _).2 (leads_unlessEnded hlive ((leads_bind _ _).2 ?_))
        exact leads_later_callTerms (w := w.withCalls calls) (v := w) (r := .ok ()) hback rfl h
      · simp only [if_neg hf]
        exact h calls

/-- A checked request is carried out by a database. -/
theorem leads_increment (hs : w.store = .database s) (hw : w.Quiet) (hheld : Lock.writes ∉ held)
    (h : ∀ calls, post held
      ((w.withStore (.database (if s.connected then { s with medium := (s.medium.add i).1 } else s))).withCalls
        calls) (if s.connected then (s.medium.add i).2 else .error .notConnected)) :
    (increment i).run.Leads callTerms post held w := by
  refine (leads_bind _ _).2 ((leads_bind _ _).2 ((leads_look _).2 ?_))
  by_cases hc : s.connected = true
  · have hlink : w.link? = .ok (w.links.length - 1) := by rw [link?, hs]; exact if_pos hc
    have hlive := hw.live _ hlink
    simp only [if_pos hc] at h
    rw [hlink]
    refine (leads_holding _ _).2 ⟨List.mem_singleton_self _, hheld, ?_⟩
    refine (leads_bind _ _).2 (leads_unlessEnded hlive (leads_write hs hw hlive fun calls => ?_))
    rw [List.erase_cons_head]
    exact ⟨List.mem_singleton_self _, List.mem_cons_self, h calls⟩
  · have hlink : w.link? = .error .notConnected := by rw [link?, hs]; exact if_neg hc
    have hself := h w.calls
    simp only [if_neg hc, withStore_eq_self hs] at hself
    rw [hlink]
    exact hself

/-- The store is asked to add to a count. -/
theorem leads_upsert {tag : Value} {kind : GivenKind} {delta : Value} (hw : w.Quiet)
    (hheld : Lock.writes ∉ held)
    (h : ∀ calls, post held ((w.withStore (w.store.upsert tag kind delta).1).withCalls calls)
      (w.store.upsert tag kind delta).2) :
    (upsert tag kind delta).run.Leads callTerms post held w := by
  refine (leads_bind _ _).2 ((leads_look _).2 ?_)
  cases hs : w.store with
  | memory s => exact ⟨⟨List.prefix_refl _, rfl⟩, h w.calls⟩
  | database s =>
    refine (leads_bind _ _).2 ?_
    cases hi : Increment.ofGiven tag kind delta with
    | error f =>
      have hself := h w.calls
      simp only [Store.upsert, hs, DatabaseStore.upsert, hi, withStore_eq_self hs] at hself
      exact hself
    | ok i =>
      simp only [Store.upsert, hs, DatabaseStore.upsert, hi] at h
      refine leads_increment hs hw hheld fun calls => ?_
      have hcalls := h calls
      split_ifs with hc
      · simpa only [if_pos hc] using hcalls
      · simpa only [if_neg hc] using hcalls

end Database

/-! ### Detecting and counting -/

theorem leads_log {post : List Lock → World → Except Fault Unit → Prop} {e : Event}
    (h : post held (w.log e) (.ok ())) : (change (·.log e)).run.Leads callTerms post held w :=
  (leads_change _).2 ⟨⟨List.prefix_append _ _, rfl⟩, h⟩

theorem leads_ask {d : Detector} {text : String}
    {post : List Lock → World → Except Fault (List Value) → Prop}
    (h : ∀ calls, post held ((w.logAll [.consulted text]).withCalls calls) (d.answer text).tags) :
    (ask d text).run.Leads callTerms post held w := by
  unfold ask
  by_cases hp : d.pausing = true
  · simp only [if_pos hp]
    refine (leads_bind _ _).2 (leads_rest.2 ?_)
    rintro _ ⟨calls, rfl⟩
    exact (leads_bind _ _).2 (leads_log (h calls))
  · simp only [if_neg hp]
    exact (leads_bind _ _).2 (leads_log (h w.calls))

/-- A detector is asked for the texts in turn. -/
theorem leads_consult {d : Detector} {texts : List String}
    {post : List Lock → World → Except Fault (List String) → Prop}
    (h : ∀ calls, post held ((w.logAll ((d.consult texts).1.map .consulted)).withCalls calls)
      (d.consult texts).2) :
    (consult d texts).run.Leads callTerms post held w := by
  induction texts generalizing w post with
  | nil =>
    show post held w (.ok [])
    simpa [Detector.consult] using h w.calls
  | cons t ts ih =>
    refine (leads_bind _ _).2 (leads_ask fun calls => ?_)
    cases htags : (d.answer t).tags with
    | error f =>
      simp only [Detector.consult, htags] at h
      exact h calls
    | ok tags =>
      simp only [Detector.consult, htags, List.map_cons] at h
      refine (leads_bind _ _).2 (ih fun calls' => ?_)
      have hcalls := h calls'
      cases hfound : (d.consult ts).2 with
      | error f => simpa [hfound, Except.map] using hcalls
      | ok found =>
        show post held _ (.ok ((topTag tags).toList ++ found))
        simpa [hfound, Except.map] using hcalls

/-- Tags are counted in turn, up to the first that the store refuses. -/
theorem leads_incrementEach {kind : SignalKind} {tags : List String}
    {post : List Lock → World → Except Fault Unit → Prop} (hw : w.Quiet) (hheld : Lock.writes ∉ held)
    (h : ∀ calls, post held
      (((w.withStore (Updater.incrementEach kind w.store tags).1).logAll
        (Updater.incrementEach kind w.store tags).2.1).withCalls calls)
      (Updater.incrementEach kind w.store tags).2.2) :
    (incrementEach kind tags).run.Leads callTerms post held w := by
  induction tags generalizing w post with
  | nil =>
    show post held w (.ok ())
    simpa [Updater.incrementEach] using h w.calls
  | cons t ts ih =>
    refine (leads_bind _ _).2 (leads_log ((leads_bind _ _).2 ((leads_discard _).2 ?_)))
    refine leads_upsert (hw.logAll [.requested t kind]) hheld fun calls => ?_
    have hquiet := hw.upsert (.text t) (.kind kind) (.whole 1)
    cases hup : w.store.upsert (.text t) (.kind kind) (.whole 1) with
    | mk s r =>
      rw [hup] at hquiet
      cases r with
      | error f =>
        have hcalls := h calls
        simp only [Updater.incrementEach, hup] at hcalls
        simpa [log_eq_logAll, hup, Except.map] using hcalls
      | ok c =>
        simp only [Updater.incrementEach, hup] at h
        simp only [log_eq_logAll, store_logAll, hup, Except.map]
        apply ih ((hquiet.logAll _).withCalls calls)
        intro calls'
        simpa using h calls'

theorem leads_classify {tags : List Value} {post : List Lock → World → Except Fault Unit → Prop}
    (hw : w.Quiet) (hheld : Lock.writes ∉ held)
    (h : ∀ calls, post held ((w.after (w.updater.classify tags)).withCalls calls)
      (w.updater.classify tags).result) :
    (classify tags).run.Leads callTerms post held w := by
  refine (leads_bind _ _).2 ((leads_given _).2 ?_)
  cases htags : usableTags tags with
  | error f =>
    have hself := h w.calls
    simp only [Updater.classify, htags, after_unchanged] at hself
    exact hself
  | ok ts =>
    simp only [Updater.classify, htags] at h
    exact leads_incrementEach hw hheld h

theorem leads_remember {key : Value} {latest : Option Int}
    {post : List Lock → World → Except Fault Unit → Prop}
    (h : post held { w with updater := (w.updater.remember key latest).1 }
      (w.updater.remember key latest).2) :
    (remember key latest).run.Leads callTerms post held w :=
  (leads_atOnce _).2 ⟨⟨List.prefix_refl _, rfl⟩, h⟩

theorem leads_ingest {key : Value} {request : Request} {d : Detector}
    {post : List Lock → World → Except Fault Unit → Prop} (hw : w.Quiet) (hheld : Lock.writes ∉ held)
    (h : ∀ calls, post held ((w.after (w.updater.ingest key request d)).withCalls calls)
      (w.updater.ingest key request d).result) :
    (do
      let tags ← consult d request.texts
      incrementEach .conversationActions (firstOccurrences tags)
      remember key (request.latest.map Moment.instant) : Work Unit).run.Leads callTerms post held w := by
  refine (leads_bind _ _).2 (leads_consult fun calls => ?_)
  cases hfound : (d.consult request.texts).2 with
  | error f =>
    have hcalls := h calls
    simp only [Updater.ingest, hfound] at hcalls
    exact hcalls
  | ok tags =>
    refine (leads_bind _ _).2 (leads_incrementEach ((hw.logAll _).withCalls calls) hheld fun calls' => ?_)
    have hcalls := h calls'
    simp only [Updater.ingest, hfound] at hcalls
    simp only [store_withCalls, store_logAll, logAll_withCalls, withStore_withCalls, withCalls_withCalls]
    cases hcount : Updater.incrementEach .conversationActions w.store (firstOccurrences tags) with
    | mk s answer =>
      obtain ⟨events, r⟩ := answer
      have hstore : Updater.incrementEach .conversationActions w.updater.store (firstOccurrences tags) =
          (s, events, r) := hcount
      simp only [hstore] at hcalls
      cases r with
      | error f => exact withStore_logAll s _ events (.error f) ▸ hcalls
      | ok _ =>
        refine leads_remember ?_
        rw [withStore_logAll s _ events (.ok ())]
        exact hcalls

/-- A conversation request is counted, or skipped. -/
theorem leads_converse {request : Request} {d : Detector}
    {post : List Lock → World → Except Fault Unit → Prop} (hw : w.Quiet) (hheld : Lock.writes ∉ held)
    (h : ∀ calls, post held ((w.after (w.updater.converse request d)).withCalls calls)
      (w.updater.converse request d).result) :
    (converse request d).run.Leads callTerms post held w := by
  refine (leads_bind _ _).2 ((leads_look _).2 ((leads_bind _ _).2 ((leads_given _).2 ?_)))
  cases hreplay : w.updater.isReplay (request.key w.updater.policy.defaultKey) request with
  | error f =>
    have hself := h w.calls
    simp only [Updater.converse, hreplay, after_unchanged] at hself
    exact hself
  | ok replay =>
    cases replay with
    | true =>
      have hself := h w.calls
      simp only [Updater.converse, hreplay, after_unchanged] at hself
      exact hself
    | false =>
      simp only [Updater.converse, hreplay] at h
      exact leads_ingest hw hheld h

/-! ### What starts no tasks -/

theorem childless_unlessEnded (n : Nat) (f : Fault) : (unlessEnded n f).run.Childless := by
  refine childless_bind (childless_look _) fun ended => ?_
  cases ended
  · exact childless_pure ()
  · exact childless_throw f

theorem childless_insert (n : Nat) (i : Increment) : (insert n i).run.Childless := by
  refine childless_bind (childless_later _ _) fun count => ?_
  refine childless_bind (childless_unlessEnded _ _) fun _ => ?_
  exact childless_bind (childless_later _ _) fun _ => childless_pure count

theorem childless_write (n : Nat) (i : Increment) : (write n i).run.Childless := by
  refine childless_tryCatch (childless_insert n i) fun f => ?_
  by_cases hf : f = .cannotIncrement i.tag i.kind
  · simp only [if_pos hf]
    refine childless_bind (childless_unlessEnded _ _) fun _ => ?_
    exact childless_bind (childless_later _ _) fun _ => childless_throw f
  · simp only [if_neg hf]
    exact childless_throw f

theorem childless_increment (i : Increment) : (increment i).run.Childless := by
  refine childless_bind (childless_bind (childless_look _) fun _ => childless_given _) fun n => ?_
  exact childless_holding (childless_bind (childless_unlessEnded _ _) fun _ => childless_write n i)

theorem childless_upsert (tag : Value) (kind : GivenKind) (delta : Value) :
    (upsert tag kind delta).run.Childless := by
  refine childless_bind (childless_look _) fun store => ?_
  cases store with
  | memory s => exact childless_atOnce _
  | database s => exact childless_bind (childless_given _) childless_increment

theorem childless_incrementEach (kind : SignalKind) (tags : List String) :
    (incrementEach kind tags).run.Childless := by
  induction tags with
  | nil => exact childless_pure ()
  | cons t ts ih =>
    refine childless_bind (childless_change _) fun _ => ?_
    exact childless_bind (childless_discard (childless_upsert _ _ _)) fun _ => ih

theorem childless_ask (d : Detector) (text : String) : (ask d text).run.Childless := by
  have hask : (do change (·.log (.consulted text)); given (d.answer text).tags :
      Work (List Value)).run.Childless :=
    childless_bind (childless_change _) fun _ => childless_given _
  unfold ask
  by_cases hp : d.pausing = true
  · simp only [if_pos hp]
    exact childless_bind childless_rest fun _ => hask
  · simp only [if_neg hp]
    exact hask

theorem childless_consult (d : Detector) (texts : List String) :
    (consult d texts).run.Childless := by
  induction texts with
  | nil => exact childless_pure []
  | cons t ts ih =>
    refine childless_bind (childless_ask d t) fun tags => ?_
    exact childless_bind ih fun found => childless_pure _

theorem childless_classify (tags : List Value) : (classify tags).run.Childless :=
  childless_bind (childless_given _) fun _ => childless_incrementEach _ _

theorem childless_converse (request : Request) (d : Detector) :
    (converse request d).run.Childless := by
  refine childless_bind (childless_look _) fun u => childless_bind (childless_given _) fun replay => ?_
  cases replay with
  | true => exact childless_pure ()
  | false =>
    refine childless_bind (childless_consult _ _) fun tags => ?_
    exact childless_bind (childless_incrementEach _ _) fun _ => childless_atOnce _

end Work

/-! ### Calls -/

namespace Call

/-- What a call does while it holds the lock. -/
def part : Call → Work Unit
  | .classify tags => Work.classify tags
  | .converse request detector => Work.converse request detector

/-- What a call does when it has been performed: it hands the lock on, whatever became of it. -/
def handOn (r : Except Fault Unit) : Process World Task Completion Completion :=
  .release .calls (.done (r.map fun _ => .nothing))

theorem work_task (c : Call) : (Task.call c).work.run = .acquire .calls (c.part.run.bind handOn) := by
  have hwork : c.work = Work.holding .calls c.part := by
    cases c <;> rfl
  have hend : (fun r => (Process.release .calls (.done r)).bind
      (ExceptT.bindCont fun _ => (pure .nothing : Work Reply))) = handOn := by
    funext r
    cases r <;> rfl
  have hbind : (Task.call c).work.run =
      (Work.holding .calls c.part).run.bind (ExceptT.bindCont fun _ => (pure .nothing : Work Reply)) := by
    rw [← hwork]
    rfl
  rw [hbind, ← hend, ← Process.bind_bind]
  rfl

/-- **A call among others.** While it holds the lock, a call does what it does alone, in whatever order
the processes go on. -/
theorem leads_part (c : Call) {w : World} {held : List Lock}
    {post : List Lock → World → Except Fault Unit → Prop} (hw : w.Quiet) (hheld : Lock.writes ∉ held)
    (h : ∀ calls, post held ((w.after (w.updater.perform c)).withCalls calls)
      (w.updater.perform c).result) :
    c.part.run.Leads World.callTerms post held w := by
  cases c with
  | classify tags => exact Work.leads_classify hw hheld h
  | converse request d => exact Work.leads_converse hw hheld h

theorem childless (c : Call) : (Task.call c).work.run.Childless := by
  rw [work_task]
  refine Process.Childless.bind (p := c.part.run) ?_ fun r => trivial
  cases c with
  | classify tags => exact Work.childless_classify tags
  | converse request d => exact Work.childless_converse request d

end Call

end LanguageUsage
