import LanguageUsage.Proofs.Service.Submission

/-!
# Serial equivalence

Calls that are submitted to a service come in between each other only where they do not matter to one
another: in every course each call does what it does when it is performed alone, after the one that was
submitted before it.

* `Loop.Quiescent`: nothing is going on;
* `Serial`: some of the calls have ended as they end one after another, and the next is in progress;
* `Serves.serial_equivalence`: this holds in every course, and every course comes to rest when all calls have ended;
* `Serves.perform`: what a service does is such a course.
-/

namespace LanguageUsage

/-- Nothing is going on, and nobody holds a lock. -/
structure Loop.Quiescent (l : Loop World Task Completion) : Prop where
  ready : l.ready = []
  errands : l.errands = []
  carried : l.carried = none
  held : l.held = []
  blocked : l.blocked = []
  joining : l.joining = []
  quiet : l.state.Quiet
  answered : ∀ n, (l.answer? n).isSome ↔ n < l.started
  submitted : ∀ n ∈ l.state.calls, n < l.started

theorem World.Quiet.quiescent {w : World} (hw : w.Quiet) (hcalls : w.calls = []) :
    Loop.Quiescent { state := w } where
  ready := rfl
  errands := rfl
  carried := rfl
  held := rfl
  blocked := rfl
  joining := rfl
  quiet := hw
  answered n := by simp [Loop.answer?]
  submitted n hn := by
    rw [show ({ state := w } : Loop World Task Completion).state.calls = [] from hcalls] at hn
    cases hn

/-- A service begins with nothing going on, as long as its store was not opened elsewhere. -/
theorem Service.quiescent_ofUpdater (u : Updater) (h : ∀ s, u.store = .database s → s.connected = false) :
    (Service.ofUpdater u).loop.Quiescent := by
  refine World.Quiet.quiescent ⟨rfl, fun n hn => ?_⟩ rfl
  cases hs : u.store with
  | memory s => simp [World.link?, World.store, hs] at hn
  | database s => simp [World.link?, World.store, hs, h s hs] at hn

theorem Loop.Quiescent.queue {l : Loop World Task Completion} (h : l.Quiescent) :
    Queue l.state ⟨[], .nowhere, [], [], []⟩ ⟨l, []⟩ where
  roll := ⟨(List.append_nil _).symm, List.nodup_nil, h.submitted, rfl, List.forall_mem_nil _,
    fun n hn => (h.answered n).2 (h.submitted n hn), fun n hn => (h.answered n).1 hn⟩
  audience := ⟨List.forall_mem_nil _, by rw [h.joining]; exact List.forall_mem_nil _, fun n hn => .inr (.inl ((h.answered n).2 hn))⟩
  stage := ⟨h.held, h.errands, h.carried, by rw [h.ready]; exact .nil,
    by rw [Lineup.state, List.map_nil, World.afterAll_nil]; rfl⟩
  blocked := h.blocked
  idle _ := rfl
  notBegun := ⟨.nil, List.forall_mem_nil _, List.forall_mem_nil _⟩

theorem Loop.Quiescent.orderly {l : Loop World Task Completion} (h : l.Quiescent) (begun : List Nat) :
    Course.Orderly ⟨l, begun⟩ where
  ready_lt := by rw [h.ready]; exact List.forall_mem_nil _
  delayed := by rw [h.ready]; exact List.forall_mem_nil _
  sorted := by rw [h.ready]; exact .nil
  errands := by rw [h.errands]; exact List.forall_mem_nil _
  carried := by rw [h.carried]; rintro r ⟨⟩
  blocked := by rw [h.blocked]; exact List.forall_mem_nil _
  joining := by rw [h.joining]; exact List.forall_mem_nil _

/-- The calls `cs`, with the given tasks, were submitted in the state `w`. The first `k` of them have ended
as they end one after another, and all that was asked of others since is what they asked for, and after
it what the next one has asked for so far. -/
structure Serial (w : World) (cs : List Call) (tasks : List Nat) (k : Nat)
    (l : Loop World Task Completion) : Prop where
  length : tasks.length = cs.length
  nodup : tasks.Nodup
  le : k ≤ cs.length
  answers : tasks.map l.answer? =
    ((w.updater.performAll cs).2.2.take k).map (fun r => some (.ofCall r)) ++
      List.replicate (cs.length - k) none
  events : ∃ es, l.state.events = w.events ++ (w.updater.performAll (cs.take k)).2.1 ++ es ∧
    es <+: cs[k]?.elim [] fun c => ((w.updater.performAll (cs.take k)).1.perform c).events
  final : k = cs.length → l.state.updater = (w.updater.performAll cs).1 ∧
    l.state.events = w.events ++ (w.updater.performAll cs).2.1

theorem Updater.performAll_take_length (u : Updater) (cs cs' : List Call) :
    (u.performAll (cs ++ cs')).2.2.take cs.length = (u.performAll cs).2.2 := by
  rw [performAll_append, ← length_performAll u cs, List.take_left]

/-- What the call in progress has asked for so far. -/
theorem Station.Stands.events {w v : World} {p : Station} (h : p.Stands w v) :
    ∃ es, v.events = w.events ++ es ∧
      es <+: p.job?.elim [] fun j => (w.updater.perform j.call).events := by
  have hends : ∀ (j : Job) {q : Process World Task Completion (Except Fault Unit)} {locks : List Lock},
      w.events <+: v.events → q.Leads World.callTerms (w.ends j.call) locks v →
      ∃ es, v.events = w.events ++ es ∧ es <+: (w.updater.perform j.call).events := by
    rintro j q locks ⟨es, hes⟩ hleads
    obtain ⟨held, t, r, hkept, -, ⟨calls, rfl⟩, -⟩ := hleads.ends
    refine ⟨es, hes.symm, ?_⟩
    have hprefix : v.events <+: w.events ++ (w.updater.perform j.call).events := hkept.1
    rwa [← hes, List.prefix_append_right_inj] at hprefix
  cases p with
  | nowhere =>
    have hv : v = w.withCalls v.calls := h
    refine ⟨[], ?_, List.nil_prefix⟩
    rw [hv, List.append_nil]
    rfl
  | ready j locks q => exact hends j h.1 h.2
  | sent j locks brief change next => exact hends j h.1 h.2
  | carried j locks delay q => exact hends j h.1 h.2

namespace Queue

variable {w : World} {x : Lineup} {c : Course World Task Completion}

theorem calls_take (x : Lineup) : (x.jobs.map Job.call).take x.past.length = x.past.map Job.call := by
  rw [Lineup.jobs, List.map_append]
  exact List.take_left' (List.length_map _)

theorem serial (h : Queue w x c) :
    Serial w (x.jobs.map Job.call) (x.jobs.map Job.task) x.past.length c.loop := by
  have hlength : (x.jobs.map Job.call).length - x.past.length = x.later.length := by
    simp [Lineup.jobs]
  refine ⟨by simp, h.roll.nodup, by simp [Lineup.jobs], ?_, ?_, ?_⟩
  · -- the answers
    have hpast : ((w.updater.performAll (x.jobs.map Job.call)).2.2.take x.past.length) =
        (w.updater.performAll (x.past.map Job.call)).2.2 := by
      rw [Lineup.jobs, List.map_append, ← List.length_map Job.call, Updater.performAll_take_length]
    have hlater : x.later.map (fun j => c.loop.answer? j.task) = List.replicate x.later.length none := by
      rw [List.eq_replicate_iff]
      refine ⟨List.length_map _, ?_⟩
      intro a ha
      obtain ⟨j, hj, rfl⟩ := List.mem_map.1 ha
      exact h.roll.unended j hj
    rw [hpast, hlength, ← h.roll.ended, ← hlater, List.map_map, Lineup.jobs, List.map_append]
    rfl
  · -- what was asked for
    obtain ⟨es, hes, hprefix⟩ := h.stage.stands.events
    rw [calls_take]
    refine ⟨es, hes, ?_⟩
    cases hp : x.station.job? with
    | none =>
      rw [hp] at hprefix
      rw [List.prefix_nil.1 hprefix]
      exact List.nil_prefix
    | some j =>
      have hnext : (x.jobs.map Job.call)[x.past.length]? = some j.call := by
        simp [Lineup.jobs, Lineup.later, hp]
      rw [hp] at hprefix
      rw [hnext]
      exact hprefix
  · intro hk
    -- no call is left
    have hlater : x.later = [] := by
      rw [← List.length_eq_zero_iff, ← hlength]
      omega
    have hjobs : x.jobs = x.past := by rw [Lineup.jobs, hlater, List.append_nil]
    have hstands := h.stage.stands
    cases hp : x.station with
    | nowhere =>
      rw [hp] at hstands
      have hstate : c.loop.state = (x.state w).withCalls c.loop.state.calls := hstands
      rw [hstate, hjobs]
      exact ⟨rfl, rfl⟩
    | _ => simp [Lineup.later, hp, Station.job?] at hlater

/-- When nobody can go on, all calls have ended. -/
theorem quiescent (hw : w.Quiet) (h : Queue w x c) (hrest : c.AtRest Task.activity) :
    x.later = [] ∧ c.loop.Quiescent := by
  have hnobody : x.station.own ++ (x.fresh.map Job.start ++ x.watchers) = [] := by
    have hready := h.stage.ready
    rw [hrest.ready] at hready
    exact hready.symm.eq_nil
  obtain ⟨hown, hothers⟩ := List.append_eq_nil_iff.1 hnobody
  obtain ⟨hfresh, hwatchers⟩ := List.append_eq_nil_iff.1 hothers
  -- a call in progress could go on
  have hp : x.station = .nowhere := by
    have herrands := h.stage.errands
    have hcarried := h.stage.carried
    rw [hrest.errands] at herrands
    rw [hrest.carried] at hcarried
    cases hp : x.station with
    | nowhere => rfl
    | ready j locks q => rw [hp] at hown; cases hown
    | sent j locks brief change next => rw [hp] at herrands; cases herrands
    | carried j locks delay q => rw [hp] at hcarried; cases hcarried
  have hwaiting : x.waiting = [] := h.idle (by rw [hp]; rfl)
  have hlater : x.later = [] := by
    rw [Lineup.later, hp, hwaiting, List.map_eq_nil_iff.1 hfresh]
    rfl
  have hall : ∀ n ∈ c.loop.state.calls, (c.loop.answer? n).isSome := (hlater ▸ h.roll).isSome_of_mem_calls
  have hjoining : c.loop.joining = [] := by
    -- one who still waits would wait for a call that has not ended
    apply List.eq_nil_iff_forall_not_mem.2
    intro j hj
    obtain ⟨-, -, hnone, hsub, -⟩ := h.audience.joining j hj
    have hsome := Loop.isSome_answers?.2 fun t ht => hall t (hsub ht)
    rw [hnone] at hsome
    cases hsome
  refine ⟨hlater, hrest.ready, hrest.errands, hrest.carried, ?_, ?_, hjoining, ?_, ?_, h.roll.lt⟩
  · rw [h.stage.held, hp]
    rfl
  · rw [h.blocked, hwaiting]
    rfl
  · -- the state is the one that the calls left
    have hstands := h.stage.stands
    rw [hp] at hstands
    have hstate : c.loop.state = (x.state w).withCalls c.loop.state.calls := hstands
    rw [hstate]
    exact (hw.afterAll _).withCalls _
  · intro n
    refine ⟨h.roll.answered n, fun hn => ?_⟩
    rcases h.audience.known n hn with hbusy | hanswered | hcall | ⟨v, hv, -⟩ | ⟨j, hj, rfl⟩
    · cases hbusy
    · exact hanswered
    · exact hall n hcall
    · rw [hwatchers] at hv
      cases hv
    · rw [hjoining] at hj
      cases hj

theorem task_lt {j : Job} (h : Queue w x c) (hj : j ∈ x.jobs) : j.task < c.loop.started :=
  h.roll.lt _ (h.roll.mem_calls hj)

theorem job?_lt {j : Job} (h : Queue w x c) (hj : x.station.job? = some j) :
    j.task < c.loop.started :=
  h.task_lt (List.mem_append_right _ (by simp [Lineup.later, hj]))

theorem ready_lt (h : Queue w x c) : ∀ r ∈ c.loop.ready, r.task < c.loop.started := by
  intro r hr
  have hmem : r.pair ∈ x.station.own ++ (x.fresh.map Job.start ++ x.watchers) :=
    h.stage.ready.subset (List.mem_map_of_mem hr)
  rcases List.mem_append.1 hmem with hown | hother
  · cases hp : x.station with
    | ready j locks q =>
      rw [hp] at hown
      have hr : r.task = j.task := congrArg Prod.fst (List.mem_singleton.1 hown)
      rw [hr]
      exact h.job?_lt (by rw [hp]; rfl)
    | _ => rw [hp] at hown; cases hown
  · rcases List.mem_append.1 hother with hfresh | hwatch
    · obtain ⟨j, hj, hjr⟩ := List.mem_map.1 hfresh
      have hr : j.task = r.task := congrArg Prod.fst hjr
      rw [← hr]
      exact h.task_lt (List.mem_append_right _ (List.mem_append_right _ hj))
    · exact (h.audience.ready _ hwatch).1

theorem errands_lt (h : Queue w x c) : ∀ e ∈ c.loop.errands, e.task < c.loop.started := by
  intro e he
  rw [h.stage.errands] at he
  cases hp : x.station with
  | sent j locks brief change next =>
    rw [hp] at he
    rw [List.mem_singleton.1 he]
    exact h.job?_lt (by rw [hp]; rfl)
  | _ => rw [hp] at he; cases he

theorem carried_lt (h : Queue w x c) : ∀ r ∈ c.loop.carried, r.task < c.loop.started := by
  intro r hr
  rw [h.stage.carried] at hr
  cases hp : x.station with
  | carried j locks delay q =>
    rw [hp] at hr
    cases Option.mem_some.1 hr
    exact h.job?_lt (by rw [hp]; rfl)
  | _ => rw [hp] at hr; cases hr

theorem blocked_lt (h : Queue w x c) : ∀ b ∈ c.loop.blocked, b.task < c.loop.started := by
  intro b hb
  rw [h.blocked] at hb
  obtain ⟨j, hj, rfl⟩ := List.mem_map.1 hb
  exact h.task_lt (List.mem_append_right _ (List.mem_append_left _ (List.mem_append_right _ hj)))

/-- Whoever waits for all calls that were submitted does not end before them. -/
theorem awaits_settle (h : Queue w x c) :
    (c.enter Task.activity Step.settle.work.run).loop.Awaits c.loop.started c.loop.state.calls := by
  let l : Loop World Task Completion := { c.loop with started := c.loop.started + 1 }
  have hunanswered : c.loop.answer? c.loop.started = none := by
    cases ha : c.loop.answer? c.loop.started with
    | none => rfl
    | some r => exact absurd (h.roll.answered _ (by rw [ha]; rfl)) (Nat.lt_irrefl _)
  show (Loop.resume Task.activity c.loop.started Step.settle.work.run l).Awaits _ _
  rw [Step.resume_settle, Loop.resume]
  cases hanswers : l.answers? l.state.calls with
  | some rs =>
    have hall := Loop.isSome_answers?.1 (by rw [hanswers]; rfl)
    exact .inl fun t ht => Loop.isSome_answer?_resume _ (hall t ht)
  | none =>
    refine .inr ⟨hunanswered, Nat.lt_succ_self _, fun r hr => Nat.ne_of_lt (h.ready_lt r hr),
      fun e he => Nat.ne_of_lt (h.errands_lt e he), fun r hr => Nat.ne_of_lt (h.carried_lt r hr),
      fun b hb => Nat.ne_of_lt (h.blocked_lt b hb), fun j hj hjt => ?_⟩
    rcases List.mem_append.1 hj with hj | hj
    · exact absurd hjt (Nat.ne_of_lt (h.audience.joining j hj).1)
    · rw [List.mem_singleton.1 hj]

end Queue

theorem Serves.awaits {c d : Course World Task Completion} {steps : List Step} {task : Nat}
    {tasks : List Nat} (hc : c.loop.Awaits task tasks) (h : Serves c steps d) :
    d.loop.Awaits task tasks := by
  induction h with
  | start => exact hc
  | enter h s hs ih => exact Course.awaits_enter _ ih
  | moves h hm ih => exact hm.awaits ih

/-- **Serial equivalence.** Calls are submitted to a service with which nothing is going on, in any number
and at any moments, and the tasks go on in any order. At any time some of the calls have ended, the
first ones, with the results that they have one after another. What was asked of others is what these
calls ask for one after another, and at the end the updater is the one that they leave.

No course goes on forever, and if nobody can go on, all calls have ended and the locks are free. One who
waits for all calls that were submitted does not end before they have ended. -/
theorem Serves.serial_equivalence {l : Loop World Task Completion} {steps : List Step}
    {c : Course World Task Completion} (hl : l.Quiescent) (h : Serves ⟨l, []⟩ steps c) :
    (∃ tasks k, c.loop.state.calls = l.state.calls ++ tasks ∧
      Serial l.state (steps.flatMap Step.accepted) tasks k c.loop ∧
      (c.AtRest Task.activity → k = tasks.length ∧ c.loop.Quiescent)) ∧
    Acc (fun e d => Course.Goes Task.activity d e) c ∧
    ∀ steps' d, Serves (c.enter Task.activity Step.settle.work.run) steps' d →
      (d.loop.answer? c.loop.started).isSome → ∀ n ∈ c.loop.state.calls, (d.loop.answer? n).isSome := by
  obtain ⟨x, hx, hqueue⟩ := h.queue hl.quiet hl.queue
  have hcalls : x.jobs.map Job.call = steps.flatMap Step.accepted := hx
  refine ⟨⟨x.jobs.map Job.task, x.past.length, hqueue.roll.calls, ?_, fun hrest => ?_⟩, ?_, ?_⟩
  · rw [← hcalls]
    exact hqueue.serial
  · obtain ⟨hlater, hquiescent⟩ := hqueue.quiescent hl.quiet hrest
    refine ⟨?_, hquiescent⟩
    rw [List.length_map, Lineup.jobs, hlater, List.append_nil]
  · -- no course goes on forever
    refine Course.acc_goes (h.childless ?_)
    constructor
    · rw [hl.ready]
      exact List.forall_mem_nil _
    · rw [hl.errands]
      exact List.forall_mem_nil _
    · rw [hl.carried]
      rintro r ⟨⟩
    · rw [hl.blocked]
      exact List.forall_mem_nil _
    · rw [hl.joining]
      exact List.forall_mem_nil _
  · intro steps' d hd hanswer
    exact (hd.awaits hqueue.awaits_settle).isSome hanswer

theorem Serves.moves_all {c d e : Course World Task Completion} {steps : List Step} (h : Serves c steps d)
    (hm : Relation.ReflTransGen (Course.Moves Task.activity) d e) : Serves c steps e := by
  induction hm with
  | refl => exact h
  | tail _ hm ih => exact ih.moves hm

/-- **What a service does is one of the courses.** It performs a step for some turns, in which the one that
has been ready longest goes on. -/
theorem Serves.perform {c d : Course World Task Completion} {steps : List Step} (h : Serves c steps d)
    (hd : d.Orderly) (s : Step) (hs : s.OfCalls) (turns : Nat) :
    ∃ begun, Serves c (steps ++ [s]) ⟨(d.loop.perform Task.activity turns s.work.run).1, begun⟩ ∧
      Course.Orderly ⟨(d.loop.perform Task.activity turns s.work.run).1, begun⟩ := by
  have henter : Course.Orderly (d.enter Task.activity s.work.run) := hd.enter s.work.run
  obtain ⟨begun, hmoves, horderly⟩ := Course.moves_run Task.activity (n := turns) henter
  exact ⟨begun, (h.enter s hs).moves_all hmoves, horderly⟩

/-- Three calls are submitted together, the second of which fails. The others are counted all the same. -/
theorem serial_of_failing_call :
    let l := (Service.ofUpdater { store := .memory { refused := ["xx"] } }).loop
    let step := Step.batch [.ok (.classify [.text "en"]), .ok (.classify [.text "xx"]),
      .ok (.classify [.text "en"])]
    ∃ c tasks, l.Quiescent ∧ Serves ⟨l, []⟩ [step] c ∧
      c.loop = (l.perform Task.activity 32 step.work.run).1 ∧ c.loop.state.calls = l.state.calls ++ tasks ∧
      Serial l.state ([step].flatMap Step.accepted) tasks 3 c.loop ∧
      tasks.map c.loop.answer? = [some (.ok .nothing), some (.error .diskFull), some (.ok .nothing)] ∧
      c.loop.state.store.rows = .ok [⟨"en", .classifyText, .whole 2⟩] := by
  intro l step
  have hl : l.Quiescent := Service.quiescent_ofUpdater _ (by rintro s ⟨⟩)
  obtain ⟨begun, hserves, -⟩ := (Serves.start (c := ⟨l, []⟩)).perform (hl.orderly []) step trivial 32
  have hlaunched : (l.perform Task.activity 32 step.work.run).1.state.calls = [1, 2, 3] := by decide +kernel
  have hended : ∀ n ∈ [1, 2, 3], ((l.perform Task.activity 32 step.work.run).1.answer? n).isSome := by decide +kernel
  have hrows : (l.perform Task.activity 32 step.work.run).1.state.store.rows =
      .ok [⟨"en", .classifyText, .whole 2⟩] := by decide +kernel
  generalize (l.perform Task.activity 32 step.work.run).1 = m at hserves hlaunched hended hrows ⊢
  have hserved : Serves ⟨l, []⟩ [step] ⟨m, begun⟩ := hserves
  obtain ⟨tasks, k, hcalls, hserial, -⟩ := (Serves.serial_equivalence hl hserved).1
  have htasks : tasks = [1, 2, 3] := hcalls.symm.trans hlaunched
  have hlength : ([step].flatMap Step.accepted).length = 3 := rfl
  have hresults : (l.state.updater.performAll ([step].flatMap Step.accepted)).2.2 =
      [.ok (), .error .diskFull, .ok ()] := by decide +kernel
  have hanswers := hserial.answers
  rw [hresults, hlength] at hanswers
  -- no call is left without an answer
  have hk : k = 3 := by
    by_contra hne
    have hlt : k < 3 := Nat.lt_of_le_of_ne hserial.le hne
    have hnone : none ∈ tasks.map m.answer? := by
      rw [hanswers]
      exact List.mem_append_right _ (List.mem_replicate.2 ⟨Nat.sub_ne_zero_of_lt hlt, rfl⟩)
    obtain ⟨n, hn, hanswer⟩ := List.mem_map.1 hnone
    have hsome := hended n (htasks ▸ hn)
    rw [hanswer] at hsome
    cases hsome
  subst hk
  exact ⟨⟨m, begun⟩, tasks, hl, hserved, rfl, hcalls, hserial, hanswers, hrows⟩

end LanguageUsage
