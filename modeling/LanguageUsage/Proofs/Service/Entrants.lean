import LanguageUsage.Proofs.Service.Submission
import LanguageUsage.Proofs.Service.Write
import LanguageUsage.Proofs.Store.Log

/-!
# Requests that are started together

Of requests that are started together, those that a database refuses whatever it holds matter to nobody. The others
make their changes, each in the state that those before it have left.

* `Entrant`, `numbered`: a request with its task, and several that were started one after another;
* `Store.objection?`: what a store has against a request whatever it holds;
* `Store.performAll_of_objections`: what comes of several requests is what comes of those to which it has none;
* `World.served`: the state after some requests;
* `World.Quiet.leads_entrant`: what a request does that has the right to write;
* `Loop.resume_addition`, `Loop.resume_startAll`: how a request begins, and how several are started.
-/

namespace LanguageUsage

/-! ### Requests and stores -/

namespace Store

variable {s : Store} {a : Addition} {f : Fault}

/-- What a store has against a request whatever it holds. One in memory looks at the request only when it carries it
out. -/
def objection? : Store → Addition → Option Fault
  | .memory _, _ => none
  | .database _, a => match a.checked with
    | .ok _ => none
    | .error f => some f

theorem perform_of_objection? (h : s.objection? a = some f) : s.perform a.operation = (s, .error f) := by
  cases s with
  | memory s => cases h
  | database d =>
    cases hchecked : a.checked with
    | ok i => simp [objection?, hchecked] at h
    | error f' =>
      obtain rfl : f' = f := by simpa [objection?, hchecked] using h
      rw [Addition.checked] at hchecked
      simp only [Addition.operation, perform, upsert, DatabaseStore.upsert, hchecked]
      rfl

theorem perform_database_ok {d : DatabaseStore} {i : Increment} (hi : a.checked = .ok i) (hd : d.connected = true) :
    (Store.database d).perform a.operation =
      (.database { d with medium := (d.medium.add i).1 }, (d.medium.add i).2.map .count) := by
  rw [Addition.checked] at hi
  simp only [Addition.operation, perform, upsert, DatabaseStore.upsert, hi, hd, if_true]

theorem perform_database_unconnected {d : DatabaseStore} {i : Increment} (hi : a.checked = .ok i)
    (hd : d.connected = false) : (Store.database d).perform a.operation = (.database d, .error .notConnected) := by
  rw [Addition.checked] at hi
  simp only [Addition.operation, perform, upsert, DatabaseStore.upsert, hi, hd, Bool.false_eq_true, if_false]
  rfl

/-- A request changes the rows of a database only. -/
theorem frame_perform_database (d : DatabaseStore) (a : Addition) :
    ((Store.database d).perform a.operation).1.frame = (Store.database d).frame := by
  cases hchecked : a.checked with
  | error f => rw [perform_of_objection? (f := f) (by rw [objection?, hchecked])]
  | ok i =>
    cases hd : d.connected with
    | true => rw [perform_database_ok hchecked hd]; rfl
    | false => rw [perform_database_unconnected hchecked hd]

/-- What a store objects to does not depend on what it holds. -/
theorem objection?_of_frame_eq {t : Store} (h : s.frame = t.frame) : s.objection? = t.objection? := by
  cases s <;> cases t <;> first | rfl | cases h

theorem objection?_perform (s : Store) (a : Addition) : (s.perform a.operation).1.objection? = s.objection? := by
  cases s with
  | memory s => rfl
  | database d => exact objection?_of_frame_eq (frame_perform_database d a)

theorem performAll_concat (s : Store) (os : List Operation) (o : Operation) :
    s.performAll (os ++ [o]) = (((s.performAll os).1.perform o).1,
      (s.performAll os).2 ++ [((s.performAll os).1.perform o).2]) := by
  induction os generalizing s with
  | nil => rfl
  | cons o' os ih => simp only [List.cons_append, performAll, ih]

theorem objection?_performAll (s : Store) (as : List Addition) :
    (s.performAll (as.map Addition.operation)).1.objection? = s.objection? := by
  induction as generalizing s with
  | nil => rfl
  | cons a as ih => exact (ih _).trans (objection?_perform s a)

end Store

/-- A request that was started, with its task. -/
structure Entrant where
  task : Nat
  addition : Addition

namespace Entrant

def operation (x : Entrant) : Operation := x.addition.operation

/-- The store does not object to the request. -/
def passes (s : Store) (x : Entrant) : Bool := (s.objection? x.addition).isNone

end Entrant

/-- **Those to which the store objects do not matter.** If each of them is answered with the objection, and the others
are answered as if there were no more of them, all are answered as they are one after another. -/
theorem Store.performAll_of_objections {s : Store} {xs : List Entrant} {answer : Entrant → Option Completion}
    (hpassing : (xs.filter (Entrant.passes s)).map answer =
      (s.performAll ((xs.filter (Entrant.passes s)).map Entrant.operation)).2.map some)
    (hrefused : ∀ x ∈ xs, ∀ f, s.objection? x.addition = some f → answer x = some (.error f)) :
    xs.map answer = (s.performAll (xs.map Entrant.operation)).2.map some ∧
      (s.performAll ((xs.filter (Entrant.passes s)).map Entrant.operation)).1 =
        (s.performAll (xs.map Entrant.operation)).1 := by
  induction xs generalizing s with
  | nil => exact ⟨rfl, rfl⟩
  | cons x xs ih =>
    obtain ⟨hx, hxs⟩ := List.forall_mem_cons.1 hrefused
    cases hobjection : s.objection? x.addition with
    | some f =>
      have hnot : ¬ Entrant.passes s x = true := by simp [Entrant.passes, hobjection]
      have hperform : s.perform x.operation = (s, .error f) := perform_of_objection? hobjection
      rw [List.filter_cons_of_neg hnot] at hpassing ⊢
      obtain ⟨hanswers, hstore⟩ := ih hpassing hxs
      simp only [List.map_cons, performAll, hperform, hx f hobjection, hanswers, true_and]
      exact hstore
    | none =>
      have hpass : Entrant.passes s x = true := by simp [Entrant.passes, hobjection]
      have hsame : Entrant.passes (s.perform x.operation).1 = Entrant.passes s := by
        funext z
        exact congrArg Option.isNone (congrFun (objection?_perform s x.addition) z.addition)
      rw [List.filter_cons_of_pos hpass] at hpassing ⊢
      simp only [List.map_cons, performAll] at hpassing ⊢
      obtain ⟨hanswer, hpassing⟩ := List.cons.inj hpassing
      rw [← hsame] at hpassing
      obtain ⟨hanswers, hstore⟩ := ih hpassing fun z hz f hf =>
        hxs z hz f (by rwa [Entrant.operation, objection?_perform] at hf)
      rw [hsame] at hstore
      exact ⟨by rw [hanswer, hanswers], hstore⟩

/-- Requests with the tasks from `n` on. -/
def numbered : Nat → List Addition → List Entrant
  | _, [] => []
  | n, a :: as => ⟨n, a⟩ :: numbered (n + 1) as

section numbered

variable {n : Nat} {as : List Addition} {x : Entrant}

theorem length_numbered (n : Nat) (as : List Addition) : (numbered n as).length = as.length := by
  induction as generalizing n with
  | nil => rfl
  | cons a as ih => simp only [numbered, List.length_cons, ih]

theorem map_operation_numbered (n : Nat) (as : List Addition) :
    (numbered n as).map Entrant.operation = as.map Addition.operation := by
  induction as generalizing n with
  | nil => rfl
  | cons a as ih => simp only [numbered, List.map_cons, ih]; rfl

theorem map_task_numbered (n : Nat) (as : List Addition) :
    (numbered n as).map Entrant.task = List.range' n as.length := by
  induction as generalizing n with
  | nil => rfl
  | cons a as ih => simp only [numbered, List.map_cons, ih, List.length_cons, List.range'_succ]

theorem task_of_mem_numbered (h : x ∈ numbered n as) : n ≤ x.task ∧ x.task < n + as.length := by
  have hmem : x.task ∈ (numbered n as).map Entrant.task := List.mem_map_of_mem h
  rw [map_task_numbered] at hmem
  exact List.mem_range'_1.1 hmem

/-- They were started one after another. -/
theorem pairwise_numbered (n : Nat) (as : List Addition) :
    (numbered n as).Pairwise fun x z => x.task < z.task := by
  rw [← List.pairwise_map, map_task_numbered]
  exact List.pairwise_lt_range'

end numbered

/-! ### The state -/

namespace World

variable {w : World} {x : Entrant} {xs : List Entrant} {n : Nat}

/-- The state after some requests. -/
def served (w : World) (xs : List Entrant) : World :=
  w.withStore (w.store.performAll (xs.map Entrant.operation)).1

theorem served_concat (w : World) (xs : List Entrant) (x : Entrant) :
    w.served (xs ++ [x]) = (w.served xs).served [x] := by
  rw [served, List.map_append, List.map_singleton, Store.performAll_concat]
  rfl

theorem objection?_served (w : World) (xs : List Entrant) : (w.served xs).store.objection? = w.store.objection? := by
  have hmap : xs.map Entrant.operation = (xs.map Entrant.addition).map Addition.operation := by
    rw [List.map_map]
    rfl
  rw [served, store_withStore, hmap, Store.objection?_performAll]

theorem frame_served {d : DatabaseStore} (hs : w.store = .database d) (xs : List Entrant) :
    (w.served xs).frame = w.frame := by
  induction xs using List.reverseRecOn with
  | nil => rfl
  | append_singleton xs x ih =>
    rw [served_concat, ← ih]
    refine frame_withStore ?_
    have hframe : (w.served xs).store.frame = w.store.frame := congrArg (fun v => v.store) ih
    cases hxs : (w.served xs).store with
    | memory s => rw [hxs, hs] at hframe; cases hframe
    | database d' => exact Store.frame_perform_database d' x.addition

theorem link?_memory {s : MemoryStore} (hs : w.store = .memory s) : w.link? = .error .notConnected := by
  rw [link?, hs]

theorem store_served_memory {s : MemoryStore} (hs : w.store = .memory s) (xs : List Entrant) :
    ∃ s', (w.served xs).store = .memory s' := by
  induction xs using List.reverseRecOn with
  | nil => exact ⟨s, hs⟩
  | append_singleton xs x ih =>
    obtain ⟨s', hs'⟩ := ih
    rw [served_concat, served, hs']
    exact ⟨_, rfl⟩

theorem link?_served (w : World) (xs : List Entrant) : (w.served xs).link? = w.link? := by
  cases hs : w.store with
  | memory s =>
    obtain ⟨s', hs'⟩ := store_served_memory hs xs
    rw [link?_memory hs, link?_memory hs']
  | database d => exact (eq_of_frame_eq (frame_served hs xs)).2.2.2

theorem Quiet.served (h : w.Quiet) (xs : List Entrant) : (w.served xs).Quiet :=
  ⟨h.saved, fun n hn => h.live n (link?_served w xs ▸ hn)⟩

/-- How a request ends that makes its change in the state `w`. -/
def endsAdding (w : World) (x : Entrant) (held : List Lock) (v : World) (r : Except Fault Number) : Prop :=
  held = [] ∧ v = w.served [x] ∧ r.map .count = (w.store.perform x.operation).2

/-- If there is a connection in use, the store is a database that is open. -/
theorem store_of_link?_ok (h : w.link? = .ok n) : ∃ d, w.store = .database d ∧ d.connected = true := by
  cases hs : w.store with
  | memory s => rw [link?_memory hs] at h; cases h
  | database d =>
    refine ⟨d, rfl, ?_⟩
    rw [link?, hs] at h
    cases hd : d.connected with
    | true => rfl
    | false => simp [hd] at h

theorem frame_served_of_link? (h : w.link? = .ok n) (xs : List Entrant) : (w.served xs).frame = w.frame := by
  obtain ⟨d, hs, -⟩ := store_of_link?_ok h
  exact frame_served hs xs

/-- **A request that may write makes its change.** -/
theorem Quiet.leads_entrant (hw : w.Quiet) (hlink : w.link? = .ok n) {i : Increment} (hi : x.addition.checked = .ok i) :
    (Work.writeInTurn n i).run.Leads writeTerms (w.endsAdding x) [] w := by
  obtain ⟨d, hs, hd⟩ := store_of_link?_ok hlink
  have hperform : w.store.perform x.operation =
      (.database { d with medium := (d.medium.add i).1 }, (d.medium.add i).2.map .count) := by
    rw [hs]
    exact Store.perform_database_ok hi hd
  refine Work.leads_writeInTurn hs hw (hw.live n hlink) ⟨rfl, ?_, ?_⟩
  · simp only [World.served, List.map_singleton, Store.performAll, hperform]
  · rw [hperform]

end World

/-! ### The loop -/

namespace Entrant

/-- The task of a request that has not begun. -/
def start (x : Entrant) : Nat × Activity := (x.task, .pause (Task.operation x.operation).activity)

/-- What a request that has passed the check does when it may write. -/
def process (n : Nat) (x : Entrant) : Activity :=
  match x.addition.checked with
  | .ok i => (Work.writeInTurn n i).run.bind handOn
  | .error f => .done (.error f)

/-- A request that waits until it may write. -/
def blocked (n : Nat) (x : Entrant) : Blocked World Task Completion := ⟨.writes, x.task, x.process n⟩

end Entrant

namespace Loop

variable {l : Loop World Task Completion}

/-- A request is over at once if the store objects to it or there is nowhere to write to. Otherwise it waits for the
right to write. -/
theorem resume_addition (l : Loop World Task Completion) (x : Entrant) :
    (∃ f, l.state.store.objection? x.addition = some f ∧
      resume Task.activity x.task (Task.operation x.operation).activity l = l.finish x.task (.error f)) ∨
    (l.state.store.objection? x.addition = none ∧ (∃ f, l.state.link? = .error f) ∧
      resume Task.activity x.task (Task.operation x.operation).activity l =
        finish { l with state := l.state.served [x] } x.task (l.state.store.perform x.operation).2) ∨
    ∃ i n, x.addition.checked = .ok i ∧ l.state.link? = .ok n ∧
      resume Task.activity x.task (Task.operation x.operation).activity l =
        resume Task.activity x.task (.acquire .writes ((Work.writeInTurn n i).run.bind handOn)) l := by
  cases hs : l.state.store with
  | memory s =>
    refine .inr (.inl ⟨rfl, ⟨_, World.link?_memory hs⟩, ?_⟩)
    rw [← hs]
    exact resume_upsert_memory hs
  | database d =>
    cases hchecked : x.addition.checked with
    | error f =>
      refine .inl ⟨f, by rw [Store.objection?, hchecked], ?_⟩
      exact resume_upsert_error hs hchecked
    | ok i =>
      have hbegin := resume_upsert_ok (l := l) (t := x.task) hs hchecked
      cases hlink : l.state.link? with
      | ok n =>
        rw [hlink] at hbegin
        exact .inr (.inr ⟨i, n, rfl, rfl, hbegin⟩)
      | error f =>
        have hd : d.connected = false := by
          rw [World.link?, hs] at hlink
          cases hd : d.connected with
          | false => rfl
          | true => simp [hd] at hlink
        have hf : f = .notConnected := by
          rw [World.link?, hs] at hlink
          simpa [hd, eq_comm] using hlink
        have hperform : (Store.database d).perform x.operation = (.database d, .error f) := by
          rw [hf]
          exact Store.perform_database_unconnected hchecked hd
        have hsame : l.state.served [x] = l.state := by
          simp only [World.served, List.map_singleton, Store.performAll, hs, hperform]
          exact World.withStore_eq_self hs
        rw [hlink] at hbegin
        refine .inr (.inl ⟨by rw [Store.objection?, hchecked], ⟨f, rfl⟩, ?_⟩)
        rw [hsame, hperform]
        exact hbegin

/-- Requests are started one after another. -/
def startEach (l : Loop World Task Completion) (as : List Addition) : Loop World Task Completion :=
  { l with
    ready := l.ready ++ (numbered l.started as).map fun x => ⟨0, x.task, (Task.operation x.operation).activity⟩
    started := l.started + as.length }

theorem resume_startAll (t : Nat) (as : List Addition) (k : Except Fault (List Nat) → Activity)
    (l : Loop World Task Completion) :
    resume Task.activity t ((Work.startAll (as.map Addition.operation)).run.bind k) l =
      resume Task.activity t (k (.ok ((numbered l.started as).map Entrant.task))) (l.startEach as) := by
  induction as generalizing l k with
  | nil =>
    have hsame : l.startEach [] = l := by simp [startEach, numbered]
    rw [hsame]
    rfl
  | cons a as ih =>
    let m : Loop World Task Completion := l.begin (Task.operation a.operation).activity
    let k' : Except Fault (List Nat) → Activity := fun r => k (r.map (l.started :: ·))
    have hm : m.startEach as = l.startEach (a :: as) := by
      simp only [startEach, m, begin, enqueue, numbered, List.map_cons, List.append_assoc, List.singleton_append,
        List.length_cons, Nat.add_assoc, Nat.add_comm 1]
      rfl
    have hrest := ih k' m
    rw [hm] at hrest
    refine Eq.trans ?_ hrest
    -- the first one is started, and then the others
    show resume Task.activity t
      ((Work.startAll (as.map Addition.operation) >>= fun ns => pure (l.started :: ns)).run.bind k) m = _
    rw [Work.run_bind_pure, Process.bind_bind]
    rfl

end Loop

end LanguageUsage
