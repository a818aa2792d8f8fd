import LanguageUsage.Proofs.Schedule.Alone
import LanguageUsage.Proofs.Service.Serial

/-!
# Operations one after another

A service that is used for operations only, one after another, does what its store does with them: no operation
meets another one on its way.

* `Operation.isPlain`, `Store.Carries`: an operation of a single part that does not close the store, or closes it;
* `Operation.leads_work`, `Operation.within_work`: what it comes to, and how often it waits;
* `Service.AtRest`: nothing is going on;
* `Store.observe`: what is to be seen of operations by what the store does;
* `Service.performAll_operations`: this is what is seen.
-/

namespace LanguageUsage

/-! ### How often work waits -/

namespace Work

variable {α β : Type} {m n : Nat}

theorem within_pure (a : α) : (pure a : Work α).run.Within n := trivial

theorem within_throw (f : Fault) : (throw f : Work α).run.Within n := trivial

theorem within_given (r : Except Fault α) : (given r).run.Within n := trivial

theorem within_look (f : World → α) : (look f).run.Within n := fun _ => trivial

theorem within_atOnce (f : World → World × Except Fault α) : (atOnce f).run.Within n := fun _ => trivial

theorem within_change (f : World → World) : (change f).run.Within n := fun _ => trivial

theorem within_later (brief : World → Bool) (f : World → World × Except Fault α) :
    (later brief f).run.Within 1 :=
  ⟨0, rfl, fun _ => trivial⟩

theorem within_bind {x : Work α} {f : α → Work β} (hx : x.run.Within m) (hf : ∀ a, (f a).run.Within n) :
    (x >>= f).run.Within (n + m) :=
  Process.Within.bind hx (by rintro (e | a); exacts [trivial, hf a])

theorem within_tryCatch {x : Work α} {f : Fault → Work α} (hx : x.run.Within m)
    (hf : ∀ e, (f e).run.Within n) : (tryCatch x f).run.Within (n + m) :=
  Process.Within.bind hx (by rintro (e | a); exacts [hf e, trivial])

theorem within_holding {lock : Lock} {x : Work α} (hx : x.run.Within n) : (holding lock x).run.Within n := by
  have hbind : (x.run.bind fun r => Process.release lock (.done r)).Within (0 + n) :=
    Process.Within.bind hx fun _ => trivial
  rwa [Nat.zero_add] at hbind

theorem within_unlessEnded (k : Nat) (f : Fault) : (unlessEnded k f).run.Within 0 := by
  refine within_bind (within_look (n := 0) _) fun ended => ?_
  cases ended <;> exact trivial

theorem within_link : link.run.Within 0 :=
  within_bind (within_look (n := 0) _) fun _ => within_given _

theorem within_connect : connect.run.Within 3 := by
  refine within_bind (within_look (n := 0) _) fun s => ?_
  cases s with
  | memory s => exact within_pure _
  | database s =>
    dsimp only
    split
    · exact within_pure _
    · refine within_bind (within_later _ _) fun _ => ?_
      refine within_bind (within_change (n := 0) _) fun _ => within_bind within_link fun k => ?_
      refine within_bind (within_later _ _) fun _ => within_bind within_link fun k => ?_
      exact within_later _ _

theorem within_close : close.run.Within 1 := by
  refine within_bind (within_look (n := 0) _) fun link => ?_
  cases link with
  | error f => exact within_pure _
  | ok n => exact within_bind (within_later _ _) fun _ => within_change (n := 0) _

theorem within_insert (k : Nat) (i : Increment) : (insert k i).run.Within 2 := by
  refine within_bind (within_later _ _) fun count => ?_
  refine within_bind (within_unlessEnded _ _) fun _ => ?_
  exact within_bind (within_later _ _) fun _ => within_pure (n := 0) _

theorem within_write (k : Nat) (i : Increment) : (write k i).run.Within 3 := by
  refine within_tryCatch (within_insert k i) fun f => ?_
  dsimp only
  split
  · refine within_bind (within_unlessEnded _ _) fun _ => ?_
    exact within_bind (within_later _ _) fun _ => within_throw (n := 0) _
  · exact within_throw _

theorem within_upsert (tag : Value) (kind : GivenKind) (delta : Value) :
    (upsert tag kind delta).run.Within 3 := by
  refine within_bind (within_look (n := 0) _) fun s => ?_
  cases s with
  | memory s => exact within_atOnce _
  | database s =>
    refine within_bind (within_given (n := 0) _) fun i => within_bind within_link fun k => ?_
    exact within_holding (within_bind (within_unlessEnded _ _) fun _ => within_write k i)

theorem within_select (q : Query) : (select q).run.Within 1 :=
  within_bind within_link fun _ => within_later _ _

theorem within_rows : rows.run.Within 1 := by
  refine within_bind (within_look (n := 0) _) fun s => ?_
  cases s with
  | memory s => exact within_pure _
  | database s => exact within_select _

theorem within_get (tag : Value) (kind : GivenKind) : (get tag kind).run.Within 1 := by
  refine within_bind (within_look (n := 0) _) fun s => ?_
  cases s with
  | memory s => exact within_pure _
  | database s =>
    refine within_bind (within_given (n := 0) _) fun q => ?_
    exact within_bind (within_select q) fun _ => within_pure (n := 0) _

theorem within_byKind (kind : GivenKind) : (byKind kind).run.Within 1 := by
  refine within_bind (within_look (n := 0) _) fun s => ?_
  cases s with
  | memory s => exact within_pure _
  | database s => exact within_bind (within_given (n := 0) _) fun q => within_select q

theorem within_usage (kind : GivenKind) : (usage kind).run.Within 1 :=
  within_bind (within_byKind kind) fun _ => within_given (n := 0) _

theorem within_frequent (kind : GivenKind) (minShare : Value) : (frequent kind minShare).run.Within 1 :=
  within_bind (within_given (n := 0) _) fun _ =>
    within_bind (within_usage kind) fun _ => within_pure (n := 0) _

/-! ### What operations come to -/

open World

variable {held : List Lock} {w : World} {s : DatabaseStore}

/-- The rows are chosen by the worker. -/
theorem leads_select {q : Query} {post : List Lock → World → Except Fault (List Row) → Prop}
    (hs : w.store = .database s) (hw : w.Quiet) (h : ∀ calls, post held (w.withCalls calls) (s.select q)) :
    (select q).run.Leads callTerms post held w := by
  refine (leads_bind _ _).2 ((leads_bind _ _).2 ((leads_look _).2 ?_))
  by_cases hc : s.connected = true
  · have hlink : w.link? = .ok (w.links.length - 1) := by rw [link?, hs]; exact if_pos hc
    have hlive := hw.live _ hlink
    simp only [DatabaseStore.select, if_pos hc] at h
    let n := w.links.length - 1
    rw [hlink]
    show (later (World.refuses n) (World.select n q)).run.Leads callTerms post held w
    refine leads_later_callTerms (v := w) (fun calls => ?_) rfl h
    simp only [World.select, store_withCalls, link_withCalls, hs, n, hlive]
  · have hlink : w.link? = .error .notConnected := by rw [link?, hs]; exact if_neg hc
    have hself := h w.calls
    simp only [DatabaseStore.select, if_neg hc] at hself
    rw [hlink]
    exact hself

theorem leads_rows {post : List Lock → World → Except Fault (List Row) → Prop} (hw : w.Quiet)
    (h : ∀ calls, post held (w.withCalls calls) w.store.rows) : rows.run.Leads callTerms post held w := by
  refine (leads_bind _ _).2 ((leads_look _).2 ?_)
  cases hs : w.store with
  | memory s =>
    rw [hs] at h
    exact h w.calls
  | database s =>
    rw [hs] at h
    exact leads_select hs hw h

theorem leads_get {tag : Value} {kind : GivenKind} {post : List Lock → World → Except Fault (Option Row) → Prop}
    (hw : w.Quiet) (h : ∀ calls, post held (w.withCalls calls) (w.store.get tag kind)) :
    (get tag kind).run.Leads callTerms post held w := by
  refine (leads_bind _ _).2 ((leads_look _).2 ?_)
  cases hs : w.store with
  | memory s =>
    rw [hs] at h
    exact h w.calls
  | database s =>
    rw [hs] at h
    simp only [Store.get, DatabaseStore.get] at h
    refine (leads_bind _ _).2 ((leads_given _).2 ?_)
    cases hq : Query.ofGivenKey tag kind with
    | error f =>
      rw [hq] at h
      exact h w.calls
    | ok q =>
      rw [hq] at h
      refine (leads_bind_pure _ _).2 (leads_select hs hw fun calls => ?_)
      exact h calls

theorem leads_byKind {kind : GivenKind} {post : List Lock → World → Except Fault (List Row) → Prop}
    (hw : w.Quiet) (h : ∀ calls, post held (w.withCalls calls) (w.store.byKind kind)) :
    (byKind kind).run.Leads callTerms post held w := by
  refine (leads_bind _ _).2 ((leads_look _).2 ?_)
  cases hs : w.store with
  | memory s =>
    rw [hs] at h
    exact h w.calls
  | database s =>
    rw [hs] at h
    simp only [Store.byKind, DatabaseStore.byKind] at h
    refine (leads_bind _ _).2 ((leads_given _).2 ?_)
    cases hq : Query.ofGivenKind kind with
    | error f =>
      rw [hq] at h
      exact h w.calls
    | ok q =>
      rw [hq] at h
      exact leads_select hs hw h

theorem leads_usage {kind : GivenKind} {post : List Lock → World → Except Fault (List Usage) → Prop}
    (hw : w.Quiet) (h : ∀ calls, post held (w.withCalls calls) (w.store.usage kind)) :
    (usage kind).run.Leads callTerms post held w :=
  (leads_bind_given _ _).2 (leads_byKind hw h)

theorem leads_frequent {kind : GivenKind} {minShare : Value}
    {post : List Lock → World → Except Fault (List String) → Prop} (hw : w.Quiet)
    (h : ∀ calls, post held (w.withCalls calls) (w.store.frequent kind minShare)) :
    (frequent kind minShare).run.Leads callTerms post held w := by
  refine (leads_bind _ _).2 ((leads_given _).2 ?_)
  unfold Store.frequent at h
  cases hleast : checkMinShare minShare with
  | error f =>
    rw [hleast] at h
    exact h w.calls
  | ok least =>
    rw [hleast] at h
    exact (leads_bind_pure _ _).2 (leads_usage hw h)

end Work

/-! ### Opening the store -/

namespace World

variable {w : World} {s : DatabaseStore}

/-- The state after a database was opened on a new connection. -/
def opened (w : World) (s : DatabaseStore) : World :=
  { w.withStore (.database { s with connected := true }) with links := w.links ++ [.live] }

theorem link?_opened (w : World) (s : DatabaseStore) : (w.opened s).link? = .ok w.links.length := by
  simp [link?, opened, store, withStore]

theorem link_opened (w : World) (s : DatabaseStore) : (w.opened s).link w.links.length = .live := by
  simp [link, opened]

theorem Quiet.opened (h : w.Quiet) (s : DatabaseStore) : (w.opened s).Quiet := by
  refine ⟨h.saved, fun n hn => ?_⟩
  rw [link?_opened] at hn
  obtain rfl := Except.ok.inj hn
  exact link_opened w s

theorem connect_openLink (hs : w.store = .database s) (calls : List Nat) :
    (World.withCalls { w with links := w.links ++ [.live] } calls).connect = (w.opened s).withCalls calls := by
  have hstore : (World.withCalls { w with links := w.links ++ [.live] } calls).store = .database s := hs
  simp only [connect, onDatabase, hstore]
  rfl

end World

namespace Work

open World

variable {held : List Lock} {w : World} {s : DatabaseStore}

/-- The table is prepared on a connection that was just opened. -/
theorem leads_prepare {post : List Lock → World → Except Fault Unit → Prop} (hw : w.Quiet)
    (h : ∀ calls, post held ((w.opened s).withCalls calls) (s.medium.prepared s.path)) (calls : List Nat) :
    (do let n ← link
        later (World.refuses n) (World.prepare n)
        let n ← link
        later (World.isClean n) (World.commit n (.cannotOpen s.path)) : Work Unit).run.Leads callTerms post held
      ((w.opened s).withCalls calls) := by
  have hlink : ∀ calls, ((w.opened s).withCalls calls).link? = .ok w.links.length := fun _ => link?_opened w s
  have hlive : ∀ calls, ((w.opened s).withCalls calls).link w.links.length = .live := fun _ => link_opened w s
  have hstore : ∀ calls, ((w.opened s).withCalls calls).store = .database { s with connected := true } :=
    fun _ => rfl
  refine (leads_bind _ _).2 ((leads_bind _ _).2 ((leads_look _).2 ((leads_given _).2 ?_)))
  rw [hlink]
  refine (leads_bind _ _).2 (leads_later_callTerms (v := w.opened s) (r := s.medium.prepared s.path)
    (fun calls' => ?_) rfl fun calls' => ?_)
  · rw [withCalls_withCalls, World.prepare, hstore, hlive]
  cases hprepared : s.medium.prepared s.path with
  | error f =>
    rw [hprepared] at h
    exact h calls'
  | ok _ =>
    rw [hprepared] at h
    refine (leads_bind _ _).2 ((leads_bind _ _).2 ((leads_look _).2 ((leads_given _).2 ?_)))
    rw [hlink]
    refine leads_later_callTerms (v := w.opened s) (r := .ok ()) (fun calls'' => ?_) rfl h
    have hsaved : (w.opened s).unsaved = none := hw.saved
    rw [withCalls_withCalls, World.commit, hlive]
    simp only [World.withCalls, ← hsaved]

/-- A database is opened on a new connection, unless there is none. -/
theorem leads_openDatabase {post : List Lock → World → Except Fault Unit → Prop} (hs : w.store = .database s)
    (hw : w.Quiet) (hc : s.connected = false)
    (h : ∀ v, v.Quiet → v.updater = { w.updater with store := .database s.connect.1 } → v.events = w.events →
      post held v s.connect.2) : (openDatabase s.path).run.Leads callTerms post held w := by
  refine (leads_bind _ _).2 ?_
  cases hfound : s.medium.found s.path with
  | error f =>
    have hconnect : s.connect = (s, .error f) := by
      rw [DatabaseStore.connect, hc, hfound]
      rfl
    refine leads_later_callTerms (v := w) (r := .error f) (fun calls => ?_) rfl fun calls => ?_
    · simp only [openLink, store_withCalls, hs, hfound]
    · have hupdater : w.updater = { w.updater with store := .database s.connect.1 } := by
        rw [hconnect, ← hs]
        rfl
      have hpost := h _ (hw.withCalls calls) hupdater rfl
      rwa [hconnect] at hpost
  | ok _ =>
    have hconnect : s.connect = ({ s with connected := true }, s.medium.prepared s.path) := by
      rw [DatabaseStore.connect, hc, hfound]
      rfl
    refine leads_later_callTerms (v := { w with links := w.links ++ [.live] }) (r := .ok ()) (fun calls => ?_)
      rfl fun calls => ?_
    · simp only [openLink, store_withCalls, hs, hfound]
      rfl
    · -- the connection is there, the table may not be
      refine (leads_bind _ _).2 ((leads_change _).2 ?_)
      rw [connect_openLink hs]
      refine ⟨⟨List.prefix_refl _, rfl⟩, leads_prepare hw (fun calls => ?_) calls⟩
      have hpost := h _ ((hw.opened s).withCalls calls) (by rw [hconnect]; rfl) rfl
      rwa [hconnect] at hpost

theorem leads_connect {post : List Lock → World → Except Fault Unit → Prop} (hw : w.Quiet)
    (h : ∀ v, v.Quiet → v.updater = { w.updater with store := w.store.connect.1 } → v.events = w.events →
      post held v w.store.connect.2) : connect.run.Leads callTerms post held w := by
  refine (leads_bind _ _).2 ((leads_look _).2 ?_)
  cases hs : w.store with
  | memory s => 
    have hpost := h w hw (by rw [hs, Store.connect, ← hs]; rfl) rfl
    rwa [hs] at hpost
  | database s =>
    rw [hs] at h
    by_cases hc : s.connected = true
    · have hconnect : s.connect = (s, .ok ()) := if_pos hc
      simp only [Store.connect, hconnect, ← hs] at h
      simp only [if_pos hc]
      exact h w hw rfl rfl
    · simp only [if_neg hc]
      exact leads_openDatabase hs hw (by simpa using hc) h

end Work

/-! ### Closing the store -/

namespace World

variable {w : World} {s : DatabaseStore}

/-- The state after a database was closed on the connection `n`. -/
def closed (w : World) (n : Nat) (s : DatabaseStore) : World :=
  { w.withStore (.database s.close) with links := (w.links.set n .shut).set n .ended }

theorem Quiet.closed (h : w.Quiet) (n : Nat) (s : DatabaseStore) : (w.closed n s).Quiet := by
  refine ⟨h.saved, fun k hk => ?_⟩
  simp [link?, World.closed, store, withStore, DatabaseStore.close] at hk

end World

namespace Store

/-- A store has nothing to lose if it is closed without being open. -/
def KeepsUnopened (s : Store) : Prop :=
  ∀ d, s = .database d → d.connected = false → d.remains = d.medium

/-- An operation of a single part, which does to the store what it would do to the store by itself. -/
def Carries (s : Store) : Operation → Prop
  | .close => s.KeepsUnopened
  | .gather _ | .session _ => False
  | _ => True

/-- Such operations one after another. -/
def CarriesAll : Store → List Operation → Prop
  | _, [] => True
  | s, o :: os => s.Carries o ∧ (s.perform o).1.CarriesAll os

end Store

namespace Work

open World

variable {held : List Lock} {w : World}

theorem leads_close {post : List Lock → World → Except Fault Unit → Prop} (hw : w.Quiet)
    (hkeeps : w.store.KeepsUnopened)
    (h : ∀ v, v.Quiet → v.updater = { w.updater with store := w.store.close } → v.events = w.events →
      post held v (.ok ())) : close.run.Leads callTerms post held w := by
  refine (leads_bind _ _).2 ((leads_look _).2 ?_)
  cases hs : w.store with
  | memory s =>
    have hlink : w.link? = .error .notConnected := by rw [link?, hs]
    rw [hlink]
    exact h w hw (by rw [hs, Store.close, ← hs]; rfl) rfl
  | database s =>
    rw [hs] at h
    by_cases hc : s.connected = true
    · have hlink : w.link? = .ok (w.links.length - 1) := by rw [link?, hs]; exact if_pos hc
      let n := w.links.length - 1
      let v : World :=
        { w.withStore (.database { s with medium := s.remains }) with links := w.links.set n .shut }
      rw [hlink]
      refine (leads_bind _ _).2 (leads_later_callTerms (v := v) (r := .ok ()) (fun calls => ?_) rfl fun calls => ?_)
      · have hback : ∀ k, (w.withCalls calls).takeBack k = w.withCalls calls := fun k => by
          simp only [takeBack, unsaved_withCalls, hw.saved]
        simp only [shut, hback, onDatabase, store_withCalls, hs]
        rfl
      · have hfinish : (v.withCalls calls).finishLink n = (w.closed n s).withCalls calls := rfl
        refine (leads_change _).2 ?_
        rw [hfinish]
        exact ⟨⟨List.prefix_refl _, rfl⟩, h _ ((hw.closed n s).withCalls calls) rfl rfl⟩
    · have hlink : w.link? = .error .notConnected := by rw [link?, hs]; exact if_neg hc
      have hc' : s.connected = false := by simpa using hc
      have hclose : s.close = s := by
        rw [DatabaseStore.close, hkeeps s hs hc', ← hc']
      rw [hlink]
      exact h w hw (by rw [Store.close, hclose, ← hs]; rfl) rfl

end Work

/-! ### Operations -/

namespace Operation

variable {held : List Lock} {w : World} {o : Operation}

/-- An operation of a single part that does not close the store. -/
def isPlain : Operation → Bool
  | .close | .gather _ | .session _ => false
  | _ => true

theorem carries_of_isPlain (ho : o.isPlain) (s : Store) : s.Carries o := by
  cases o <;> trivial

theorem carriesAll_of_isPlain {os : List Operation} (hos : ∀ o ∈ os, o.isPlain) (s : Store) : s.CarriesAll os := by
  induction os generalizing s with
  | nil => trivial
  | cons o os ih =>
    exact ⟨carries_of_isPlain (hos o List.mem_cons_self) s, ih (fun o ho => hos o (List.mem_cons_of_mem _ ho)) _⟩

theorem within_work {s : Store} (ho : s.Carries o) : o.work.run.Within 3 := by
  cases o with
  | connect => exact Work.within_bind Work.within_connect fun _ => Work.within_pure (n := 0) _
  | upsert tag kind delta =>
    exact Work.within_bind (Work.within_upsert _ _ _) fun _ => Work.within_pure (n := 0) _
  | get tag kind => exact Work.within_bind (Work.within_get _ _) fun _ => Work.within_pure (n := 2) _
  | rows => exact Work.within_bind Work.within_rows fun _ => Work.within_pure (n := 2) _
  | byKind kind => exact Work.within_bind (Work.within_byKind _) fun _ => Work.within_pure (n := 2) _
  | usage kind => exact Work.within_bind (Work.within_usage _) fun _ => Work.within_pure (n := 2) _
  | frequent kind minShare =>
    exact Work.within_bind (Work.within_frequent _ _) fun _ => Work.within_pure (n := 2) _
  | close => exact Work.within_bind Work.within_close fun _ => Work.within_pure (n := 2) _
  | gather operations => cases ho
  | session operations => cases ho

/-- An operation does what the store does. -/
theorem leads_work {post : List Lock → World → Completion → Prop} (ho : w.store.Carries o) (hw : w.Quiet)
    (hheld : Lock.writes ∉ held)
    (h : ∀ v, v.Quiet → v.updater = { w.updater with store := (w.store.perform o).1 } → v.events = w.events →
      post held v (w.store.perform o).2) : o.work.run.Leads World.callTerms post held w := by
  have hread : (w.store.perform o).1 = w.store → ∀ calls, post held (w.withCalls calls) (w.store.perform o).2 :=
    fun hsame calls => h _ (hw.withCalls calls) (by rw [hsame]; rfl) rfl
  cases o with
  | connect => exact (Work.leads_bind_pure _ _).2 (Work.leads_connect hw h)
  | upsert tag kind delta =>
    refine (Work.leads_bind_pure _ _).2 (Work.leads_upsert hw hheld fun calls => ?_)
    exact h _ ((hw.upsert tag kind delta).withCalls calls) rfl rfl
  | get tag kind => exact (Work.leads_bind_pure _ _).2 (Work.leads_get hw (hread rfl))
  | rows => exact (Work.leads_bind_pure _ _).2 (Work.leads_rows hw (hread rfl))
  | byKind kind => exact (Work.leads_bind_pure _ _).2 (Work.leads_byKind hw (hread rfl))
  | usage kind => exact (Work.leads_bind_pure _ _).2 (Work.leads_usage hw (hread rfl))
  | frequent kind minShare => exact (Work.leads_bind_pure _ _).2 (Work.leads_frequent hw (hread rfl))
  | close => exact (Work.leads_bind_pure _ _).2 (Work.leads_close hw ho h)
  | gather operations => cases ho
  | session operations => cases ho

end Operation

/-! ### The service -/

theorem Loop.Quiescent.idle {l : Loop World Task Completion} (h : l.Quiescent) : l.Idle :=
  ⟨h.ready, h.errands, h.carried, h.blocked, h.joining⟩

/-- An operation that meets no other one has ended in good time. -/
theorem Loop.Quiescent.perform {l : Loop World Task Completion} (h : l.Quiescent) {o : Operation}
    (ho : l.state.store.Carries o) {turns : Nat} (hturns : 9 ≤ turns) :
    ∃ m, l.perform (·.work.run) turns o.work.run = (m, some (l.state.store.perform o).2) ∧ m.Quiescent ∧
      m.state.store = (l.state.store.perform o).1 ∧ m.state.events = l.state.events := by
  -- what the operation ends with
  let post : List Lock → World → Completion → Prop := fun held v r => held = [] ∧ v.Quiet ∧
    v.store = (l.state.store.perform o).1 ∧ v.events = l.state.events ∧ r = (l.state.store.perform o).2
  have hleads : o.work.run.Leads World.callTerms post [] l.state :=
    Operation.leads_work ho h.quiet List.not_mem_nil fun v hv hupdater hevents =>
      ⟨rfl, hv, congrArg Updater.store hupdater, hevents, rfl⟩
  have hnew : l.answer? l.started = none := by
    rw [← Option.not_isSome_iff_eq_none, h.answered]
    exact Nat.lt_irrefl _
  obtain ⟨held, t, a, ⟨-, hcalls⟩, ⟨rfl, ht, hstore, hevents, rfl⟩, hperform⟩ :=
    Loop.perform_alone hleads (Operation.within_work ho) h.idle h.held hnew hturns
  refine ⟨_, hperform, ⟨h.ready, h.errands, h.carried, rfl, h.blocked, h.joining, ht, ?_, ?_⟩, hstore, hevents⟩
  · intro n
    have hn := h.answered n
    simp only [Loop.answer?, List.lookup_cons] at hn ⊢
    by_cases hlast : n = l.started
    · simp [hlast]
    · rw [beq_false_of_ne hlast, hn]
      omega
  · intro n hn
    rw [hcalls] at hn
    exact Nat.lt_succ_of_lt (h.submitted n hn)

/-- What is seen of an operation while nothing else goes on: its result, and the rows after it. -/
def Observation.plain (r rows : Completion) : Observation := .performed (some r) (some rows) []

/-- What is to be seen of operations on a store, one after another. -/
def Store.observe (s : Store) : List Operation → List Observation
  | [] => []
  | o :: os =>
    .performed (some (s.perform o).2) (some ((s.perform o).1.rows.map .rows)) [] :: (s.perform o).1.observe os

namespace Service

variable {s : Service} {o : Operation}

/-- Nothing is going on, and all that detectors were asked for has been seen. -/
structure AtRest (s : Service) : Prop where
  quiescent : s.loop.Quiescent
  seen : s.loop.state.events = []

theorem AtRest.carryOut (h : s.AtRest) (ho : s.store.Carries o) {parts : Nat} (hparts : 1 ≤ parts) :
    ∃ s', s.carryOut parts o.work = (s', some (s.store.perform o).2) ∧ s'.AtRest ∧
      s'.store = (s.store.perform o).1 := by
  have hturns : 9 ≤ s.turns + turnsPerPart * parts := by
    unfold turnsPerPart
    omega
  obtain ⟨m, hperform, hm, hstore, hevents⟩ := h.quiescent.perform ho hturns
  refine ⟨⟨m, s.turns + turnsPerPart * parts⟩, ?_, ⟨hm, hevents.trans h.seen⟩, hstore⟩
  simp only [Service.carryOut, hperform, store]

theorem AtRest.takeConsulted (h : s.AtRest) : s.takeConsulted = (s, []) := by
  have hseen : s.loop.state.events = [] := h.seen
  have hsame : { s.loop.state with events := [] } = s.loop.state := by rw [← hseen]
  simp only [Service.takeConsulted, hseen, List.filterMap_nil]
  rw [hsame]

/-- An operation as a step. -/
theorem AtRest.perform (h : s.AtRest) (ho : s.store.Carries o) :
    ∃ s', s.perform (.operation o) = .ok (s', .performed (some (s.store.perform o).2)
      (some ((s.store.perform o).1.rows.map .rows)) []) ∧ s'.AtRest ∧ s'.store = (s.store.perform o).1 := by
  have hparts : 1 ≤ (Step.operation o).parts := Nat.le_add_right_of_le (by omega)
  obtain ⟨s', hdone, hs', hstore⟩ := h.carryOut ho hparts
  obtain ⟨s'', hrows, hs'', hstore'⟩ := hs'.carryOut (o := .rows) trivial (Nat.le_refl 1)
  refine ⟨s'', ?_, hs'', hstore'.trans hstore⟩
  simp only [Service.perform, Step.work, hdone, hrows, hs''.takeConsulted]
  rw [hstore]
  rfl

/-- **Operations one after another.** What is seen of a service is what its store does. -/
theorem AtRest.performAll_of_carriesAll (h : s.AtRest) {os : List Operation} (hos : s.store.CarriesAll os) :
    s.performAll (os.map .operation) = .ok (s.store.observe os) := by
  induction os generalizing s with
  | nil => rfl
  | cons o os ih =>
    obtain ⟨s', hperform, hs', hstore⟩ := h.perform hos.1
    have hrest := ih hs' (hstore ▸ hos.2)
    rw [List.map_cons, Service.performAll, hperform, Store.observe, ← hstore]
    simp only [bind, Except.bind, hrest]
    rfl

/-- Whatever the store, it does not have to be closed. -/
theorem AtRest.performAll (h : s.AtRest) {os : List Operation} (hos : ∀ o ∈ os, o.isPlain) :
    s.performAll (os.map .operation) = .ok (s.store.observe os) :=
  h.performAll_of_carriesAll (Operation.carriesAll_of_isPlain hos _)

end Service

end LanguageUsage
