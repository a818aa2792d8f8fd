import LanguageUsage.Proofs.Service.Stage

/-!
# The queue of calls

The calls that were submitted stand in a row: those that have ended, the one in progress, those that wait
for the lock, and those that have not begun. They go through these stages in the order of their
submission, and each begins in the state that the calls before it left.

* `Roll`: the calls with their tasks, and the answers of those that have ended;
* `Lineup`, `Queue`: how the calls stand, and what the loop has to do with it;
* `Queue.of_stops`: when the call in progress ends, the next one is in progress;
* `Queue.moves`: a course keeps the queue.
-/

namespace LanguageUsage

/-- What comes of the task of a call. -/
def Completion.ofCall (r : Except Fault Unit) : Completion := r.map fun _ => .nothing

/-! ### The roll -/

/-- The calls in `past` have ended as they end one after another in the state `w`, and those in `later`
have not. -/
structure Roll (w : World) (past later : List Job) (l : Loop World Task Completion) : Prop where
  calls : l.state.calls = w.calls ++ (past ++ later).map Job.task
  nodup : ((past ++ later).map Job.task).Nodup
  lt : ∀ n ∈ l.state.calls, n < l.started
  ended : past.map (fun j => l.answer? j.task) =
    (w.updater.performAll (past.map Job.call)).2.2.map fun r => some (.ofCall r)
  unended : ∀ j ∈ later, l.answer? j.task = none
  earlier : ∀ n ∈ w.calls, (l.answer? n).isSome
  answered : ∀ n, (l.answer? n).isSome → n < l.started

namespace Roll

variable {w : World} {past later : List Job} {l : Loop World Task Completion}

theorem mem_calls {j : Job} (h : Roll w past later l) (hj : j ∈ past ++ later) :
    j.task ∈ l.state.calls := by
  rw [h.calls]
  exact List.mem_append_right _ (List.mem_map_of_mem hj)

/-- When all calls have ended, every one has an answer. -/
theorem isSome_of_mem_calls (h : Roll w past [] l) : ∀ n ∈ l.state.calls, (l.answer? n).isSome := by
  intro n hn
  rw [h.calls, List.append_nil] at hn
  rcases List.mem_append.1 hn with hn | hn
  · exact h.earlier n hn
  · obtain ⟨j, hj, rfl⟩ := List.mem_map.1 hn
    have hmem : l.answer? j.task ∈ past.map fun j => l.answer? j.task := List.mem_map_of_mem hj
    rw [h.ended] at hmem
    obtain ⟨r, -, hr⟩ := List.mem_map.1 hmem
    rw [← hr]
    rfl

/-- Somebody ends who is not a call. -/
theorem finish_other {n : Nat} (h : Roll w past later l) (hn : n < l.started)
    (hcalls : n ∉ l.state.calls) (r : Completion) : Roll w past later (l.finish n r) := by
  have hne : ∀ j ∈ past ++ later, j.task ≠ n := by
    intro j hj hjn
    exact hcalls (hjn ▸ h.mem_calls hj)
  rw [Loop.finish_eq]
  refine { h with ended := ?_, unended := ?_, earlier := ?_, answered := ?_ }
  · rw [← h.ended]
    apply List.map_congr_left
    intro j hj
    exact Loop.answer?_answering_ne (hne j (List.mem_append_left _ hj)) r
  · intro j hj
    exact (Loop.answer?_answering_ne (hne j (List.mem_append_right _ hj)) r).trans (h.unended j hj)
  · intro m hm
    exact Loop.isSome_answer?_answering (h.earlier m hm) r
  · intro m hm
    rcases Loop.isSome_answer?_of_answering hm with rfl | hm
    · exact hn
    · exact h.answered m hm

/-- The next call ends as it ends after those before it. -/
theorem finish_call {j : Job} (h : Roll w past (j :: later) l) :
    Roll w (past ++ [j]) later (l.finish j.task
      (.ofCall ((w.afterAll (past.map Job.call)).updater.perform j.call).result)) := by
  have hjobs : past ++ [j] ++ later = past ++ j :: later := by simp
  have hj : j.task < l.started := h.lt _ (h.mem_calls (by simp))
  have hnodup : ((past ++ j :: later).map Job.task).Nodup := h.nodup
  rw [List.map_append, List.map_cons] at hnodup
  have hnot : j.task ∉ past.map Job.task ++ later.map Job.task := (List.nodup_middle.1 hnodup).notMem
  have hne : ∀ i ∈ past ++ later, i.task ≠ j.task := by
    intro i hi hij
    rw [← List.map_append] at hnot
    exact hnot (hij ▸ List.mem_map_of_mem hi)
  rw [Loop.finish_eq]
  refine ⟨?_, ?_, h.lt, ?_, ?_, ?_, ?_⟩
  · rw [hjobs]
    exact h.calls
  · rw [hjobs]
    exact h.nodup
  · have hpast : ∀ i ∈ past, ∀ r, (l.answering j.task r).answer? i.task = l.answer? i.task :=
      fun i hi r => Loop.answer?_answering_ne (hne i (List.mem_append_left _ hi)) r
    rw [List.map_append, List.map_append, List.map_singleton, List.map_singleton, Updater.performAll_concat,
      List.map_append, ← h.ended]
    congr 1
    · exact List.map_congr_left fun i hi => hpast i hi _
    · rw [List.map_singleton]
      exact congrArg (fun a => [a]) (Loop.answer?_answering_self _)
  · intro i hi
    exact (Loop.answer?_answering_ne (hne i (List.mem_append_right _ hi)) _).trans
      (h.unended i (List.mem_cons_of_mem _ hi))
  · intro m hm
    exact Loop.isSome_answer?_answering (h.earlier m hm) _
  · intro m hm
    rcases Loop.isSome_answer?_of_answering hm with rfl | hm
    · exact hj
    · exact h.answered m hm

end Roll

/-- A call is submitted. -/
def Loop.submit (l : Loop World Task Completion) (c : Call) : Loop World Task Completion :=
  { l.begin (Task.call c).activity with state := l.state.withCalls (l.state.calls ++ [l.started]) }

theorem Roll.submit {w : World} {past later : List Job} {l : Loop World Task Completion}
    (h : Roll w past later l) (c : Call) : Roll w past (later ++ [⟨l.started, c⟩]) (l.submit c) := by
  have hnew : l.started ∉ l.state.calls := fun hmem => Nat.lt_irrefl _ (h.lt _ hmem)
  have hmap : (past ++ (later ++ [(⟨l.started, c⟩ : Job)])).map Job.task =
      (past ++ later).map Job.task ++ [l.started] := by simp
  refine ⟨?_, ?_, ?_, h.ended, ?_, h.earlier, ?_⟩
  · rw [hmap, ← List.append_assoc, ← h.calls]
    rfl
  · rw [hmap]
    refine List.nodup_append'.2 ⟨h.nodup, List.nodup_singleton _, ?_⟩
    rw [List.disjoint_singleton]
    intro hmem
    rw [h.calls] at hnew
    exact hnew (List.mem_append_right _ hmem)
  · intro n hn
    rcases List.mem_append.1 hn with hn | hn
    · exact Nat.lt_succ_of_lt (h.lt n hn)
    · rw [List.mem_singleton.1 hn]
      exact Nat.lt_succ_self _
  · intro j hj
    rcases List.mem_append.1 hj with hj | hj
    · exact h.unended j hj
    · rw [List.mem_singleton.1 hj]
      -- the number is new, so there is no answer under it
      cases ha : l.answer? l.started with
      | none => exact ha
      | some r => exact absurd (h.answered l.started (by rw [ha]; rfl)) (Nat.lt_irrefl _)
  · intro n hn
    exact Nat.lt_succ_of_lt (h.answered n hn)

/-! ### The queue -/

/-- The calls in `fresh` have not begun, and are in the order of their start. -/
structure NotBegun (fresh : List Job) (begun : List Nat) (started : Nat) : Prop where
  sorted : fresh.Pairwise fun i j => i.task < j.task
  notMem : ∀ j ∈ fresh, j.task ∉ begun
  lt : ∀ n ∈ begun, n < started

namespace NotBegun

variable {fresh : List Job} {begun : List Nat} {started : Nat} {j : Job}

/-- Somebody else goes on. -/
theorem goOn {n : Nat} (h : NotBegun fresh begun started) (hlt : n < started)
    (hne : ∀ i ∈ fresh, i.task ≠ n) : NotBegun fresh (n :: begun) started where
  sorted := h.sorted
  notMem i hi := List.not_mem_cons_of_ne_of_not_mem (hne i hi) (h.notMem i hi)
  lt := List.forall_mem_cons.2 ⟨hlt, h.lt⟩

/-- The first one begins. -/
theorem begin (h : NotBegun (j :: fresh) begun started) (hlt : j.task < started) :
    NotBegun fresh (j.task :: begun) started := by
  obtain ⟨hj, hsorted⟩ := List.pairwise_cons.1 h.sorted
  have hfresh : NotBegun fresh begun started :=
    ⟨hsorted, fun i hi => h.notMem i (List.mem_cons_of_mem _ hi), h.lt⟩
  exact hfresh.goOn hlt fun i hi => Nat.ne_of_gt (hj i hi)

/-- One more is started. -/
theorem submit (h : NotBegun fresh begun started) (hlt : ∀ i ∈ fresh, i.task < started) (c : Call) :
    NotBegun (fresh ++ [⟨started, c⟩]) begun (started + 1) where
  sorted := by
    refine List.pairwise_append.2 ⟨h.sorted, List.pairwise_singleton _ _, ?_⟩
    intro i hi j hj
    rw [List.mem_singleton.1 hj]
    exact hlt i hi
  notMem i hi := by
    rcases List.mem_append.1 hi with hi | hi
    · exact h.notMem i hi
    · rw [List.mem_singleton.1 hi]
      exact fun hmem => Nat.lt_irrefl _ (h.lt _ hmem)
  lt n hn := Nat.lt_succ_of_lt (h.lt n hn)

end NotBegun

/-- How the calls stand, and who else is ready. -/
structure Lineup where
  past : List Job
  station : Station
  /-- those that wait for the lock -/
  waiting : List Job
  /-- those that have not begun -/
  fresh : List Job
  watchers : List (Nat × Activity)

namespace Lineup

/-- The calls that have not ended. -/
def later (x : Lineup) : List Job := x.station.job?.toList ++ x.waiting ++ x.fresh

/-- All calls in the order of their submission. -/
def jobs (x : Lineup) : List Job := x.past ++ x.later

/-- The state that the calls left that have ended. -/
def state (x : Lineup) (w : World) : World := w.afterAll (x.past.map Job.call)

end Lineup

/-- The calls that were submitted since the state `w` stand as given in a course. Those in `busy` are just
going on, and are not calls. -/
structure Queue (w : World) (x : Lineup) (c : Course World Task Completion) (busy : List Nat := []) :
    Prop where
  roll : Roll w x.past x.later c.loop
  audience : c.loop.Audience c.loop.state.calls x.watchers busy
  stage : Stage (x.state w) x.station c.loop (x.fresh.map Job.start ++ x.watchers)
  blocked : c.loop.blocked = x.waiting.map Job.blocked
  idle : x.station.job? = none → x.waiting = []
  notBegun : NotBegun x.fresh c.begun c.loop.started

namespace Queue

variable {w : World} {past waiting fresh : List Job} {j : Job} {watchers : List (Nat × Activity)}
  {l m : Loop World Task Completion} {begun : List Nat} {x : Lineup}

/-- The call `j` has ended, and the station is that of the next one. -/
theorem finish_call (p : Station) (waiting : List Job)
    (roll : Roll w past (j :: (p.job?.toList ++ waiting ++ fresh)) l)
    (audience : l.Audience l.state.calls watchers [])
    (stage : Stage (w.afterAll ((past ++ [j]).map Job.call)) p l (fresh.map Job.start ++ watchers))
    (blocked : l.blocked = waiting.map Job.blocked) (idle : p.job? = none → waiting = [])
    (notBegun : NotBegun fresh begun l.started) :
    ∃ y : Lineup, y.jobs = past ++ j :: (p.job?.toList ++ waiting ++ fresh) ∧
      Queue w y ⟨l.finish j.task
        (.ofCall ((w.afterAll (past.map Job.call)).updater.perform j.call).result), begun⟩ := by
  let r : Completion := .ofCall ((w.afterAll (past.map Job.call)).updater.perform j.call).result
  let woken := (l.joining.filterMap (l.answering j.task r).woken?).map Ready.pair
  refine ⟨⟨past ++ [j], p, waiting, fresh, watchers ++ woken⟩, by simp [Lineup.jobs, Lineup.later], ?_⟩
  refine ⟨roll.finish_call, ?_, ?_, by rw [Loop.blocked_finish, blocked], idle,
    by rw [Loop.started_finish]; exact notBegun⟩
  · rw [Loop.state_finish]
    exact audience.mono_busy.finish r
  · show Stage _ _ _ (fresh.map Job.start ++ (watchers ++ woken))
    rw [← List.append_assoc]
    exact stage.finish j.task r

/-- When the call in progress ends, the one that has waited longest is in progress. -/
theorem handOn (hw : w.Quiet) (roll : Roll w past (j :: (waiting ++ fresh)) l)
    (audience : l.Audience l.state.calls watchers []) (errands : l.errands = [])
    (carried : l.carried = none)
    (ready : (l.ready.map Ready.pair).Perm (fresh.map Job.start ++ watchers))
    (blocked : l.blocked = waiting.map Job.blocked)
    (notBegun : NotBegun fresh begun l.started) (held : l.held = [.calls])
    (state : l.state = (w.afterAll ((past ++ [j]).map Job.call)).withCalls l.state.calls) :
    ∃ y : Lineup, y.jobs = past ++ j :: (waiting ++ fresh) ∧
      Queue w y ⟨(l.free .calls).finish j.task
        (.ofCall ((w.afterAll (past.map Job.call)).updater.perform j.call).result), begun⟩ := by
  cases waiting with
  | nil =>
    -- nobody waits: the lock is free again
    let l' : Loop World Task Completion := { l with held := [] }
    have hfree : l.free .calls = l' := by
      rw [Loop.free_of_forall_ne (by simp [blocked]), held]
      rfl
    rw [hfree]
    exact finish_call .nowhere [] (l := l') { roll with } { audience with }
      ⟨rfl, errands, carried, ready, state⟩ blocked (fun _ => rfl) notBegun
  | cons i waiting =>
    let l' : Loop World Task Completion :=
      { l.enqueue ⟨0, i.task, i.call.part.run.bind Call.handOn⟩ with blocked := waiting.map Job.blocked }
    -- the first one who waits holds it from now on
    have happ : l.blocked = [] ++ i.blocked :: waiting.map Job.blocked := blocked
    have hfree : l.free .calls = l' := Loop.free_of_eq_append happ rfl (by simp)
    have hstage : Stage (w.afterAll ((past ++ [j]).map Job.call)) (.ready i [] i.call.part.run) l'
        (fresh.map Job.start ++ watchers) := by
      refine ⟨held, errands, carried, ?_, ?_, ?_⟩
      · show ((l.ready ++ [_]).map Ready.pair).Perm _
        rw [List.map_append]
        exact (List.perm_append_singleton _ _).trans (ready.cons _)
      · show _ <+: l.state.events
        rw [state]
        exact List.prefix_refl _
      · rintro _ ⟨calls, rfl⟩
        show Process.Leads _ _ _ _ (l.state.withCalls calls)
        rw [state]
        exact (hw.afterAll _).leads_part i.call calls
    rw [hfree]
    exact finish_call (.ready i [] i.call.part.run) waiting (l := l') { roll with } { audience with } hstage
      rfl (by rintro ⟨⟩) notBegun

/-- The call in progress goes on for once. -/
theorem of_stops (hw : w.Quiet) (roll : Roll w past (j :: (waiting ++ fresh)) l)
    (audience : l.Audience l.state.calls watchers []) (errands : l.errands = [])
    (carried : l.carried = none)
    (ready : (l.ready.map Ready.pair).Perm (fresh.map Job.start ++ watchers))
    (blocked : l.blocked = waiting.map Job.blocked)
    (notBegun : NotBegun fresh begun l.started)
    (kept : (w.afterAll (past.map Job.call)).events <+: l.state.events)
    (stops : Loop.Stops World.callTerms ((w.afterAll (past.map Job.call)).ends j.call) Task.activity j.task
      Call.handOn [.calls] l m) :
    ∃ y : Lineup, y.jobs = past ++ j :: (waiting ++ fresh) ∧ Queue w y ⟨m, begun⟩ := by
  rcases Stage.of_stops kept errands carried ready stops with
    ⟨p, s, held, ready', errands', hp, hstage, hcalls, rfl⟩ | rfl
  · -- the call has to wait again
    refine ⟨⟨past, p, waiting, fresh, watchers⟩, by simp [Lineup.jobs, Lineup.later, hp], ?_⟩
    have hlater : Lineup.later ⟨past, p, waiting, fresh, watchers⟩ = j :: (waiting ++ fresh) := by
      simp [Lineup.later, hp]
    refine ⟨?_, ?_, hstage, blocked, fun hnone => ?_, notBegun⟩
    · rw [hlater]
      exact { roll with
        calls := hcalls.trans roll.calls
        lt := by rw [hcalls]; exact roll.lt }
    · show Loop.Audience _ s.calls _ _
      rw [hcalls]
      exact { audience with }
    · rw [hp] at hnone
      cases hnone
  · -- the call has ended
    refine handOn (l := { l with
      state := ((w.afterAll (past.map Job.call)).after
        ((w.afterAll (past.map Job.call)).updater.perform j.call)).withCalls l.state.calls
      held := [.calls] }) hw { roll with } { audience with } errands carried ready blocked notBegun rfl ?_
    rw [List.map_append, List.map_singleton, World.afterAll_concat]
    rfl

/-! ### Who goes on -/

/-- A call begins: it is in progress at once if no other is, and waits for the lock otherwise. -/
theorem begin (hw : w.Quiet) (h : Queue w x ⟨l, begun⟩) (hx : x.fresh = j :: fresh)
    {rs : List (Ready World Task Completion)}
    (stage : Stage (x.state w) x.station { l with ready := rs } (fresh.map Job.start ++ x.watchers)) :
    ∃ y : Lineup, y.jobs = x.jobs ∧
      Queue w y ⟨Loop.resume Task.activity j.task (Task.call j.call).activity { l with ready := rs },
        j.task :: begun⟩ := by
  obtain ⟨past, p, waiting, fresh', watchers⟩ := x
  obtain rfl : fresh' = j :: fresh := hx
  obtain ⟨roll, audience, -, blocked, idle, notBegun⟩ := h
  have hnotBegun := notBegun.begin (roll.lt _ (roll.mem_calls (by simp [Lineup.later])))
  rw [Task.activity, Call.work_task]
  by_cases hp : p = .nowhere
  · subst hp
    -- nobody holds the lock
    obtain rfl := idle rfl
    have hheld : l.held = [] := stage.held
    have hfree : Lock.calls ∉ l.held := by rw [hheld]; exact List.not_mem_nil
    rw [Loop.resume, if_neg hfree, hheld]
    have hstate : l.state = (w.afterAll (past.map Job.call)).withCalls l.state.calls := stage.stands
    have hroll : Roll w past (j :: ([] ++ fresh)) { l with ready := rs, held := [.calls] } := { roll with }
    refine of_stops hw hroll { audience with } stage.errands stage.carried stage.ready blocked hnotBegun ?_ ?_
    · show _ <+: l.state.events
      rw [hstate]
      exact List.prefix_refl _
    · have hlocks : [Lock.calls] = [] ++ [Lock.calls] := rfl
      refine Loop.stops_resume _ (by simp [World.callTerms]) ?_ hlocks ?_
      · show ∀ b ∈ l.blocked, _
        rw [blocked]
        exact List.forall_mem_nil _
      · show Process.Leads _ _ _ _ l.state
        rw [hstate]
        exact (hw.afterAll _).leads_part j.call _
  · -- the call in progress holds the lock
    have hheld : Lock.calls ∈ l.held := by
      have hl : l.held = p.held := stage.held
      rw [hl]
      cases p with
      | nowhere => exact absurd rfl hp
      | _ => exact List.mem_append_right _ (List.mem_singleton_self _)
    rw [Loop.resume, if_pos hheld]
    refine ⟨⟨past, p, waiting ++ [j], fresh, watchers⟩, by simp [Lineup.jobs, Lineup.later], ?_⟩
    have hlater : Lineup.later ⟨past, p, waiting ++ [j], fresh, watchers⟩ =
        Lineup.later ⟨past, p, waiting, j :: fresh, watchers⟩ := by simp [Lineup.later]
    refine ⟨?_, { audience with }, { stage with }, ?_, fun hnone => ?_, hnotBegun⟩
    · rw [hlater]
      exact { roll with }
    · rw [List.map_append, ← blocked]
      rfl
    · cases p with
      | nowhere => exact absurd rfl hp
      | _ => cases hnone

/-- The call in progress goes on. -/
theorem goOn {locks : List Lock} {q : Process World Task Completion (Except Fault Unit)} (hw : w.Quiet)
    (h : Queue w x ⟨l, begun⟩) (hx : x.station = .ready j locks q)
    {rs : List (Ready World Task Completion)}
    (hrs : (rs.map Ready.pair).Perm (x.fresh.map Job.start ++ x.watchers)) :
    ∃ y : Lineup, y.jobs = x.jobs ∧
      Queue w y ⟨Loop.resume Task.activity j.task (q.bind Call.handOn) { l with ready := rs },
        j.task :: begun⟩ := by
  obtain ⟨past, p, waiting, fresh, watchers⟩ := x
  obtain rfl : p = .ready j locks q := hx
  obtain ⟨roll, audience, stage, blocked, -, notBegun⟩ := h
  obtain ⟨hkept, hleads⟩ := stage.stands
  have hlater : Lineup.later ⟨past, .ready j locks q, waiting, fresh, watchers⟩ =
      j :: (waiting ++ fresh) := by simp [Lineup.later, Station.job?]
  have hroll : Roll w past (j :: (waiting ++ fresh)) l := hlater ▸ roll
  have hnotBegun : NotBegun fresh (j.task :: begun) l.started := by
    refine notBegun.goOn (hroll.lt _ (hroll.mem_calls (by simp))) ?_
    intro i hi hij
    have hnodup := hroll.nodup
    rw [List.map_append, List.map_cons] at hnodup
    refine (List.nodup_cons.1 hnodup.of_append_right).1 ?_
    exact hij ▸ List.mem_map_of_mem (List.mem_append_right _ hi)
  have hjobs : Lineup.jobs ⟨past, .ready j locks q, waiting, fresh, watchers⟩ =
      past ++ j :: (waiting ++ fresh) := by rw [Lineup.jobs, hlater]
  rw [hjobs]
  refine of_stops (l := { l with ready := rs }) hw { hroll with } { audience with } stage.errands
    stage.carried hrs blocked hnotBegun hkept ?_
  refine Loop.stops_resume q (by simp [World.callTerms]) ?_ stage.held
    (hleads l.state (World.callTerms.rely_refl _))
  intro b hb
  have hb : b ∈ waiting.map Job.blocked := blocked ▸ hb
  obtain ⟨i, -, rfl⟩ := List.mem_map.1 hb
  simp [World.callTerms, Job.blocked]

/-- One who waits for tasks goes on. -/
theorem watch {v : Nat × Activity} {busy : List Nat} (h : Queue w x ⟨l, begun⟩ busy)
    (audience : l.Audience l.state.calls watchers [v.1]) {rs : List (Ready World Task Completion)}
    (stage : Stage (x.state w) x.station { l with ready := rs } (x.fresh.map Job.start ++ watchers))
    (hlt : v.1 < l.started) (hv : v.1 ∉ l.state.calls) (hwatch : v.2.Watches l.state.calls) :
    ∃ y : Lineup, y.jobs = x.jobs ∧
      Queue w y ⟨Loop.resume Task.activity v.1 v.2 { l with ready := rs }, v.1 :: begun⟩ := by
  have roll : Roll w x.past x.later { l with ready := rs } := { h.roll with }
  have audience : Loop.Audience { l with ready := rs } l.state.calls watchers [v.1] := { audience with }
  have hnotBegun : NotBegun x.fresh (v.1 :: begun) l.started := by
    refine h.notBegun.goOn hlt fun i hi hiv => hv ?_
    exact hiv ▸ h.roll.mem_calls (List.mem_append_right _ (List.mem_append_right _ hi))
  rcases Loop.resume_watches Task.activity v.1 { l with ready := rs } hwatch with
    ⟨r, hr⟩ | ⟨j, hj, htask, hnone, hsub, hnext⟩
  · -- it has what it waited for, and ends
    let woken := (l.joining.filterMap (l.answering v.1 r).woken?).map Ready.pair
    rw [hr]
    refine ⟨{ x with watchers := watchers ++ woken }, rfl, ?_⟩
    refine ⟨roll.finish_other hlt hv r, ?_, ?_, by rw [Loop.blocked_finish]; exact h.blocked, h.idle,
      by rw [Loop.started_finish]; exact hnotBegun⟩
    · rw [Loop.state_finish]
      exact audience.finish r
    · show Stage _ _ _ (x.fresh.map Job.start ++ (watchers ++ woken))
      rw [← List.append_assoc]
      exact stage.finish v.1 r
  · rw [hj]
    refine ⟨{ x with watchers := watchers }, rfl, ?_⟩
    rw [← htask] at audience hlt hv
    exact ⟨{ roll with }, audience.wait hlt hv hnone hsub hnext, { stage with }, h.blocked, h.idle,
      hnotBegun⟩

/-- A call that begins was submitted before all others that have not begun: these are ready, too. -/
theorem eq_first (h : Queue w x ⟨l, begun⟩) {as bs : List (Ready World Task Completion)}
    {r : Ready World Task Completion} (hl : l.ready = as ++ r :: bs)
    (order : r.task ∈ begun ∨ ∀ q ∈ as ++ bs, q.task ∈ begun ∨ r.task ≤ q.task) {i : Job}
    (hx : x.fresh = j :: fresh) (hi : i ∈ x.fresh) (htask : i.task = r.task) : i = j := by
  have hsorted := h.notBegun.sorted
  rw [hx] at hsorted
  rcases List.mem_cons.1 (hx ▸ hi) with rfl | hi'
  · rfl
  · have hji : j.task < i.task := (List.pairwise_cons.1 hsorted).1 i hi'
    have hj : j ∈ x.fresh := by rw [hx]; exact List.mem_cons_self
    have hmem : j.start ∈ l.ready.map Ready.pair := by
      refine h.stage.ready.mem_iff.2 (List.mem_append_right _ (List.mem_append_left _ ?_))
      exact List.mem_map_of_mem hj
    -- the process of `j` is among those that are ready
    obtain ⟨q, hq, hqj⟩ := List.mem_map.1 hmem
    have hqtask : q.task = j.task := congrArg Prod.fst hqj
    have hqrest : q ∈ as ++ bs := by
      rw [hl] at hq
      rcases List.mem_append.1 hq with hq | hq
      · exact List.mem_append_left _ hq
      · rcases List.mem_cons.1 hq with rfl | hq
        · omega
        · exact List.mem_append_right _ hq
    have hr : r.task ∉ begun := htask ▸ h.notBegun.notMem i hi
    rcases order.resolve_left hr q hqrest with hbegun | hlt
    · exact absurd (hqtask ▸ hbegun) (h.notBegun.notMem j hj)
    · omega

/-- Somebody who is ready goes on. -/
theorem resume (hw : w.Quiet) (h : Queue w x ⟨l, begun⟩) {as bs : List (Ready World Task Completion)}
    {r : Ready World Task Completion} (hl : l.ready = as ++ r :: bs)
    (order : r.task ∈ begun ∨ ∀ q ∈ as ++ bs, q.task ∈ begun ∨ r.task ≤ q.task) :
    ∃ y : Lineup, y.jobs = x.jobs ∧
      Queue w y ⟨Loop.resume Task.activity r.task r.process { l with ready := as ++ bs },
        r.task :: begun⟩ := by
  rcases h.stage.resume_cases hl with ⟨j, locks, q, hx, hr, hrest⟩ | hmem
  · obtain ⟨htask, hprocess⟩ := Prod.mk.inj hr
    rw [htask, hprocess]
    exact h.goOn hw hx hrest
  rcases List.mem_append.1 hmem with hfresh | hwatch
  · obtain ⟨i, hi, hir⟩ := List.mem_map.1 hfresh
    obtain ⟨htask, hprocess⟩ := Prod.mk.inj hir
    obtain ⟨j, fresh, hx⟩ := List.exists_cons_of_ne_nil (List.ne_nil_of_mem hi)
    obtain rfl : i = j := h.eq_first hl order hx hi htask
    have hstage : Stage (x.state w) x.station { l with ready := as ++ bs }
        (fresh.map Job.start ++ x.watchers) := by
      refine Stage.take ?_ hl
      rw [← hir]
      simpa [hx] using h.stage
    rw [← htask, ← hprocess]
    exact h.begin hw hx hstage
  · obtain ⟨ws₁, ws₂, hws⟩ := List.append_of_mem hwatch
    have hperm : (x.fresh.map Job.start ++ x.watchers).Perm
        (r.pair :: (x.fresh.map Job.start ++ (ws₁ ++ ws₂))) := by
      rw [hws]
      exact (List.perm_middle.append_left _).trans List.perm_middle
    have haudience : l.Audience l.state.calls (r.pair :: (ws₁ ++ ws₂)) [] :=
      h.audience.of_mem fun v => by simp [hws]; tauto
    obtain ⟨hlt, hv, hwatches⟩ := haudience.ready r.pair List.mem_cons_self
    exact h.watch (v := r.pair) haudience.take ((h.stage.perm hperm).take hl) hlt hv hwatches

theorem carryOut (h : Queue w x ⟨l, begun⟩) {e : Errand World Task Completion}
    {es : List (Errand World Task Completion)} (he : l.errands = e :: es) :
    ∃ y : Lineup, y.jobs = x.jobs ∧ Queue w y ⟨{ l.carryOut e with errands := es }, begun⟩ := by
  obtain ⟨p, hp, hcalls, hstage⟩ := h.stage.carryOut he
  have hlater : Lineup.later { x with station := p } = x.later := by simp only [Lineup.later, hp]
  refine ⟨{ x with station := p }, by simp only [Lineup.jobs, hlater], ?_⟩
  refine ⟨?_, ?_, hstage, h.blocked, fun hnone => h.idle (hp ▸ hnone), h.notBegun⟩
  · rw [hlater]
    exact { h.roll with
      calls := hcalls.trans h.roll.calls
      lt := fun n hn => h.roll.lt n (hcalls ▸ hn) }
  · show Loop.Audience _ (e.change l.state).calls _ _
    rw [hcalls]
    exact { h.audience with }

theorem report (h : Queue w x ⟨l, begun⟩) {r : Ready World Task Completion} (hr : l.carried = some r) :
    ∃ y : Lineup, y.jobs = x.jobs ∧ Queue w y ⟨l.report, begun⟩ := by
  obtain ⟨p, hp, hstage⟩ := h.stage.report hr
  have hl : l.report = { l with carried := none, ready := l.ready ++ [r] } := by
    rw [Loop.report, hr]
    rfl
  have hlater : Lineup.later { x with station := p } = x.later := by simp only [Lineup.later, hp]
  refine ⟨{ x with station := p }, by simp only [Lineup.jobs, hlater], ?_⟩
  rw [hl] at hstage ⊢
  refine ⟨?_, { h.audience with }, hstage, h.blocked, fun hnone => h.idle (hp ▸ hnone), h.notBegun⟩
  rw [hlater]
  exact { h.roll with }

theorem pass (h : Queue w x ⟨l, begun⟩) {as bs : List (Ready World Task Completion)}
    {r : Ready World Task Completion} (hl : l.ready = as ++ r :: bs) (delay : Nat) :
    Queue w x ⟨{ l with ready := as ++ bs ++ [{ r with delay := delay }] }, begun⟩ := by
  have hperm : ((as ++ bs ++ [{ r with delay := delay }]).map Ready.pair).Perm (l.ready.map Ready.pair) := by
    rw [List.map_append]
    exact (List.perm_append_singleton _ _).trans (Stage.map_pair_middle hl).symm
  exact ⟨{ h.roll with }, { h.audience with }, h.stage.reorder hperm, h.blocked, h.idle, h.notBegun⟩

/-- **A course keeps the queue.** Whoever goes on, the calls stay in the order of their submission. -/
theorem moves {c d : Course World Task Completion} (hw : w.Quiet) (h : Queue w x c)
    (hm : Course.Moves Task.activity c d) : ∃ y : Lineup, y.jobs = x.jobs ∧ Queue w y d := by
  rcases hm with hgo | hpass
  · cases hgo with
    | resume ready order => exact h.resume hw ready order
    | carryOut carried errands => exact h.carryOut errands
    | report carried => exact h.report carried
  · cases hpass with
    | later ready delay => exact ⟨x, rfl, h.pass ready delay⟩

/-! ### Submission -/

/-- A call is submitted: it stands behind all others. -/
theorem submit {busy : List Nat} (h : Queue w x ⟨l, begun⟩ busy) (c : Call) :
    ∃ y : Lineup, y.jobs = x.jobs ++ [⟨l.started, c⟩] ∧ Queue w y ⟨l.submit c, begun⟩ busy := by
  let y : Lineup := { x with fresh := x.fresh ++ [⟨l.started, c⟩] }
  have hlater : y.later = x.later ++ [⟨l.started, c⟩] := by simp [y, Lineup.later]
  have hfresh : ∀ i ∈ x.fresh, i.task < l.started := fun i hi =>
    h.roll.lt _ (h.roll.mem_calls (List.mem_append_right _ (List.mem_append_right _ hi)))
  refine ⟨y, by rw [Lineup.jobs, hlater, ← List.append_assoc]; rfl, ?_⟩
  refine ⟨?_, { h.audience.start with }, ?_, h.blocked, h.idle, h.notBegun.submit hfresh c⟩
  · rw [hlater]
    exact h.roll.submit c
  · have hstage := h.stage.ready_append [⟨0, l.started, (Task.call c).activity⟩]
    have hperm : (x.fresh.map Job.start ++ x.watchers ++
        [(⟨0, l.started, (Task.call c).activity⟩ : Ready World Task Completion)].map Ready.pair).Perm
        (y.fresh.map Job.start ++ x.watchers) := by
      simp only [y, List.map_append, List.append_assoc]
      exact List.perm_append_comm.append_left _
    have hperm' := hstage.perm hperm
    exact { hperm' with stands := h.stage.stands.withCalls _ }

/-- A task begins that is not a call. -/
theorem enter (h : Queue w x ⟨l, begun⟩) :
    Queue w x ⟨{ l with started := l.started + 1 }, begun⟩ [l.started] where
  roll := { h.roll with
    lt := fun n hn => Nat.lt_succ_of_lt (h.roll.lt n hn)
    answered := fun n hn => Nat.lt_succ_of_lt (h.roll.answered n hn) }
  audience := h.audience.enter
  stage := { h.stage with }
  blocked := h.blocked
  idle := h.idle
  notBegun := { h.notBegun with lt := fun n hn => Nat.lt_succ_of_lt (h.notBegun.lt n hn) }

end Queue

end LanguageUsage
