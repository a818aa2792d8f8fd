import LanguageUsage.Proofs.Service.Queue
import LanguageUsage.Service.Step

/-!
# Steps that submit calls

A step submits its calls at once and in order. From then on it does nothing but wait for calls.

* `Step.OfCalls`, `Step.accepted`: the steps that are about calls, and the calls that they submit;
* `Step.resume_work`: what a step does when it is performed;
* `Serves`: the course of a service while steps are performed;
* `Serves.queue`, `Serves.childless`: what is kept at all times.
-/

namespace LanguageUsage

/-- The calls up to the first that cannot be made. -/
def madeCalls : List (Except Fault Call) → List Call
  | .ok c :: cs => c :: madeCalls cs
  | _ => []

namespace Step

/-- A step that submits calls or waits for them. -/
def OfCalls : Step → Prop
  | operation _ => False
  | _ => True

/-- The calls that a step submits. -/
def accepted (s : Step) : List Call := madeCalls s.calls

end Step

namespace Work

variable {l : Loop World Task Completion} {n : Nat} {α : Type} {tasks : List Nat}

/-! ### Work that only waits -/

theorem watches_bind {β : Type} {x : Work α} {f : α → Work β} (hx : x.run.Watches tasks)
    (hf : ∀ a, (f a).run.Watches tasks) : (x >>= f).run.Watches tasks := by
  rw [run_bind]
  apply hx.bind
  intro r
  cases r with
  | ok a => exact hf a
  | error e => trivial

theorem watches_await {task : Nat} (h : task ∈ tasks) : (await task).run.Watches tasks :=
  ⟨by simpa using h, fun _ => trivial⟩

theorem watches_awaitEach {ts : List Nat} (h : ts ⊆ tasks) : (awaitEach ts).run.Watches tasks := by
  induction ts with
  | nil => trivial
  | cons t ts ih =>
    obtain ⟨ht, hts⟩ := List.cons_subset.1 h
    apply watches_bind (watches_await ht)
    intro r
    exact watches_bind (ih hts) fun rs => trivial

/-! ### Submission -/

theorem resume_submit (c : Call) (k : Except Fault Nat → Activity) :
    Loop.resume Task.activity n ((submit (.ok c)).run.bind k) l =
      Loop.resume Task.activity n (k (.ok l.started)) (l.submit c) := rfl

theorem mem_calls_foldl_submit {m : Nat} (cs : List Call) (h : m ∈ l.state.calls) :
    m ∈ (cs.foldl Loop.submit l).state.calls := by
  induction cs generalizing l with
  | nil => exact h
  | cons c cs ih => exact ih (List.mem_append_left _ h)

theorem resume_submitAll (cs : List (Except Fault Call)) (k : Except Fault (List Nat) → Activity) :
    ∃ r, Loop.resume Task.activity n ((submitAll cs).run.bind k) l =
        Loop.resume Task.activity n (k r) ((madeCalls cs).foldl Loop.submit l) ∧
      ∀ ts, r = .ok ts → ts ⊆ ((madeCalls cs).foldl Loop.submit l).state.calls := by
  induction cs generalizing l k with
  | nil => exact ⟨.ok [], rfl, by rintro ts ⟨⟩; exact List.nil_subset _⟩
  | cons c cs ih =>
    cases c with
    | error f => exact ⟨.error f, rfl, by rintro ts ⟨⟩⟩
    | ok c =>
      let k' : Except Fault (List Nat) → Activity := fun r => k (r.map (l.started :: ·))
      obtain ⟨r, hr, hsub⟩ := ih (l := l.submit c) k'
      refine ⟨r.map (l.started :: ·), ?_, ?_⟩
      · -- the first submission, and then the others
        rw [submitAll, run_bind, Process.bind_bind, resume_submit]
        show Loop.resume Task.activity n
          ((submitAll cs >>= fun ns => pure (l.started :: ns)).run.bind k) (l.submit c) = _
        rw [run_bind_pure, Process.bind_bind]
        exact hr
      · intro ts hts
        cases r with
        | error f => cases hts
        | ok ns =>
          obtain rfl := Except.ok.inj hts
          refine List.cons_subset.2 ⟨?_, hsub ns rfl⟩
          exact mem_calls_foldl_submit (l := l.submit c) _ (List.mem_append_right _ (List.mem_singleton_self _))

end Work

/-- One who waits for the calls that were submitted waits for them together. -/
theorem Step.resume_settle (l : Loop World Task Completion) (n : Nat) :
    Loop.resume Task.activity n settle.work.run l =
      Loop.resume Task.activity n (.join l.state.calls true fun _ => .done (.ok .nothing)) l := rfl

/-- **A step submits its calls, and only waits from then on.** -/
theorem Step.resume_work (s : Step) (hs : s.OfCalls) (l : Loop World Task Completion) (n : Nat) :
    ∃ p : Activity, Loop.resume Task.activity n s.work.run l =
        Loop.resume Task.activity n p (s.accepted.foldl Loop.submit l) ∧
      p.Watches (s.accepted.foldl Loop.submit l).state.calls := by
  cases s with
  | operation o => exact hs.elim
  | submit c =>
    cases c with
    | error f => exact ⟨.done (.error f), rfl, trivial⟩
    | ok c => exact ⟨.done (.ok .nothing), rfl, trivial⟩
  | call c =>
    cases c with
    | error f => exact ⟨.done (.error f), rfl, trivial⟩
    | ok c =>
      have hmem : l.started ∈ (l.submit c).state.calls :=
        List.mem_append_right _ (List.mem_singleton_self _)
      rw [Step.work, Work.run_bind, Work.resume_submit]
      refine ⟨_, rfl, ?_⟩
      exact Work.watches_bind (Work.watches_await hmem) fun r => by cases r <;> trivial
  | batch cs =>
    have hwork : (Step.batch cs).work = (Work.submitAll cs >>= fun ns => do
        return .replies (← Work.awaitEach ns)) := rfl
    rw [hwork, Work.run_bind]
    obtain ⟨r, hr, hsub⟩ := Work.resume_submitAll (l := l) (n := n) cs _
    refine ⟨_, hr, ?_⟩
    cases r with
    | error f => trivial
    | ok ns => exact Work.watches_bind (Work.watches_awaitEach (hsub ns rfl)) fun _ => trivial
  | settle => exact ⟨_, Step.resume_settle l n, List.Subset.refl _, fun _ => trivial⟩

/-! ### Services -/

/-- While steps are performed from the course `c`, whoever goes on first. A step may be performed at any
moment, also while others wait for calls. -/
inductive Serves (c : Course World Task Completion) : List Step → Course World Task Completion → Prop
  | start : Serves c [] c
  | enter {steps : List Step} {d : Course World Task Completion} (h : Serves c steps d) (s : Step)
      (hs : s.OfCalls) : Serves c (steps ++ [s]) (d.enter Task.activity s.work.run)
  | moves {steps : List Step} {d e : Course World Task Completion} (h : Serves c steps d)
      (hm : Course.Moves Task.activity d e) : Serves c steps e

namespace Queue

variable {w : World} {x : Lineup} {l : Loop World Task Completion} {begun busy : List Nat}

/-- Calls are submitted one after another. -/
theorem foldl_submit (cs : List Call) (h : Queue w x ⟨l, begun⟩ busy) :
    ∃ y : Lineup, y.jobs.map Job.call = x.jobs.map Job.call ++ cs ∧
      Queue w y ⟨cs.foldl Loop.submit l, begun⟩ busy := by
  induction cs generalizing x l with
  | nil => exact ⟨x, (List.append_nil _).symm, h⟩
  | cons c cs ih =>
    obtain ⟨y, hy, hsubmit⟩ := h.submit c
    obtain ⟨z, hz, hall⟩ := ih hsubmit
    refine ⟨z, ?_, hall⟩
    rw [hz, hy]
    simp

/-- One who submits calls is none of them. -/
theorem lt_and_notMem_foldl_submit {n : Nat} (cs : List Call) (hlt : n < l.started)
    (hn : n ∉ l.state.calls) :
    n < (cs.foldl Loop.submit l).started ∧ n ∉ (cs.foldl Loop.submit l).state.calls := by
  induction cs generalizing l with
  | nil => exact ⟨hlt, hn⟩
  | cons c cs ih =>
    apply ih (l := l.submit c) (Nat.lt_succ_of_lt hlt)
    intro hmem
    rcases List.mem_append.1 hmem with hmem | hmem
    · exact hn hmem
    · rw [List.mem_singleton.1 hmem] at hlt
      exact Nat.lt_irrefl _ hlt

/-- A step is performed. -/
theorem step (h : Queue w x ⟨l, begun⟩) (s : Step) (hs : s.OfCalls) :
    ∃ y : Lineup, y.jobs.map Job.call = x.jobs.map Job.call ++ s.accepted ∧
      Queue w y (Course.enter Task.activity s.work.run ⟨l, begun⟩) := by
  have hnew : l.started ∉ l.state.calls := fun hmem => Nat.lt_irrefl _ (h.roll.lt _ hmem)
  obtain ⟨p, hp, hwatch⟩ := s.resume_work hs { l with started := l.started + 1 } l.started
  obtain ⟨y, hy, hsubmit⟩ := h.enter.foldl_submit s.accepted
  obtain ⟨hlt, hnot⟩ := lt_and_notMem_foldl_submit (l := { l with started := l.started + 1 }) s.accepted
    (Nat.lt_succ_self _) hnew
  obtain ⟨z, hz, hqueue⟩ :=
    hsubmit.watch (v := (l.started, p)) hsubmit.audience { hsubmit.stage with } hlt hnot hwatch
  refine ⟨z, by rw [hz, hy], ?_⟩
  rw [Course.enter, hp]
  exact hqueue

end Queue

/-- **The queue is kept at all times.** -/
theorem Serves.queue {w : World} {x : Lineup} {c d : Course World Task Completion} {steps : List Step}
    (hw : w.Quiet) (hc : Queue w x c) (h : Serves c steps d) :
    ∃ y : Lineup, y.jobs.map Job.call = x.jobs.map Job.call ++ steps.flatMap Step.accepted ∧
      Queue w y d := by
  induction h with
  | start => exact ⟨x, (List.append_nil _).symm, hc⟩
  | enter h s hs ih =>
    obtain ⟨y, hy, hqueue⟩ := ih
    obtain ⟨z, hz, hstep⟩ := hqueue.step s hs
    refine ⟨z, ?_, hstep⟩
    rw [hz, hy]
    simp
  | moves h hm ih =>
    obtain ⟨y, hy, hqueue⟩ := ih
    obtain ⟨z, hz, hmoves⟩ := hqueue.moves hw hm
    exact ⟨z, by rw [hz, hy], hmoves⟩

/-! ### No step goes on forever -/

theorem Process.Watches.childless {α : Type} {tasks : List Nat}
    {p : Process World Task Completion α} (h : p.Watches tasks) : p.Childless := by
  induction p with
  | done a => trivial
  | join ts gathered next ih => exact fun rs => ih rs (h.2 rs)
  | _ => exact h.elim

theorem Loop.Childless.foldl_submit {l : Loop World Task Completion} (h : l.Childless) (cs : List Call) :
    (cs.foldl Loop.submit l).Childless := by
  induction cs generalizing l with
  | nil => exact h
  | cons c cs ih =>
    have henqueue := h.enqueue (r := ⟨0, l.started, (Task.call c).activity⟩) c.childless
    exact ih { henqueue with }

theorem Course.Moves.childless {c d : Course World Task Completion} (hm : Course.Moves Task.activity c d)
    (hc : c.loop.Childless) : d.loop.Childless := by
  rcases hm with hgo | hpass
  · exact hgo.childless hc
  · cases hpass with
    | @later l _ as bs r ready delay =>
      have hready : ∀ q ∈ as ++ r :: bs, q.process.Childless := ready ▸ hc.ready
      refine { hc with ready := ?_ }
      intro q hq
      rcases List.mem_append.1 hq with hq | hq
      · exact hready q (by simp at hq ⊢; tauto)
      · rw [List.mem_singleton.1 hq]
        exact hready r (by simp)

theorem Serves.childless {c d : Course World Task Completion} {steps : List Step}
    (hc : c.loop.Childless) (h : Serves c steps d) : d.loop.Childless := by
  induction h with
  | start => exact hc
  | @enter steps d h s hs ih =>
    obtain ⟨p, hp, hwatch⟩ := s.resume_work hs { d.loop with started := d.loop.started + 1 } d.loop.started
    have hstarted : Loop.Childless { d.loop with started := d.loop.started + 1 } := { ih with }
    rw [Course.enter, hp]
    exact (hstarted.foldl_submit s.accepted).resume hwatch.childless
  | moves h hm ih => exact hm.childless ih

end LanguageUsage
