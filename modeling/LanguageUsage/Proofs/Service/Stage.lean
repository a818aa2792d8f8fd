import LanguageUsage.Proofs.Schedule.Watch
import LanguageUsage.Proofs.Service.Call

/-!
# The call in progress

At most one call is in progress. It is ready, or the worker is at an errand of its, or word of the errand
is on its way; whichever it is, the call leads to the end to which it leads alone.

* `Job`: a call that was submitted;
* `World.ends`: how a call ends;
* `Station`, `Stage`: where the call in progress is;
* `Stage.of_stops`: where it is after it went on for once;
* `Stage.resume_cases`: one who goes on is the call in progress, or somebody else.
-/

namespace LanguageUsage

/-- What goes on in a service. -/
abbrev Activity := Process World Task Completion Completion

/-- What tasks do. -/
abbrev Task.activity (t : Task) : Activity := t.work.run

/-- A call that was submitted, with its task. -/
structure Job where
  task : Nat
  call : Call

namespace Job

/-- The task of a call that has not begun. -/
def start (j : Job) : Nat × Activity := (j.task, (Task.call j.call).activity)

/-- A call that waits until it may be performed. -/
def blocked (j : Job) : Blocked World Task Completion :=
  ⟨.calls, j.task, j.call.part.run.bind Call.handOn⟩

end Job

/-- How a call ends that begins in the state `w`. -/
def World.ends (w : World) (c : Call) (held : List Lock) (v : World) (r : Except Fault Unit) : Prop :=
  held = [] ∧ (∃ calls, v = (w.after (w.updater.perform c)).withCalls calls) ∧
    r = (w.updater.perform c).result

/-- A call that begins leads to its end. -/
theorem World.Quiet.leads_part {w : World} (hw : w.Quiet) (c : Call) (calls : List Nat) :
    c.part.run.Leads World.callTerms (w.ends c) [] (w.withCalls calls) :=
  c.leads_part (hw.withCalls calls) (by simp) fun calls' => ⟨rfl, ⟨calls', rfl⟩, rfl⟩

/-- Where the call is that is in progress. -/
inductive Station
  /-- no call is in progress -/
  | nowhere
  /-- the call is ready to go on with `q`; it holds `locks` besides the right to be performed -/
  | ready (j : Job) (locks : List Lock) (q : Process World Task Completion (Except Fault Unit))
  /-- the worker was sent on an errand -/
  | sent (j : Job) (locks : List Lock) (brief : World → Bool) (change : World → World)
      (next : World → Process World Task Completion (Except Fault Unit))
  /-- the worker has carried out the errand -/
  | carried (j : Job) (locks : List Lock) (delay : Nat)
      (q : Process World Task Completion (Except Fault Unit))

namespace Station

/-- The call in progress. -/
def job? : Station → Option Job
  | nowhere => none
  | ready j _ _ | sent j _ _ _ _ | carried j _ _ _ => some j

def held : Station → List Lock
  | nowhere => []
  | ready _ locks _ | sent _ locks _ _ _ | carried _ locks _ _ => locks ++ [.calls]

def errands : Station → List (Errand World Task Completion)
  | sent j _ brief change next => [⟨j.task, brief, change, fun v => (next v).bind Call.handOn⟩]
  | _ => []

def word : Station → Option (Ready World Task Completion)
  | carried j _ delay q => some ⟨delay, j.task, q.bind Call.handOn⟩
  | _ => none

/-- The process of the call, while it is ready. -/
def own : Station → List (Nat × Activity)
  | ready j _ q => [(j.task, q.bind Call.handOn)]
  | _ => []

/-- The call leads to its end, when the calls before it have left the state `w`. -/
def Stands (w : World) : Station → World → Prop
  | nowhere, v => v = w.withCalls v.calls
  | ready j locks q, v | carried j locks _ q, v =>
    w.events <+: v.events ∧ (Process.pause q).Leads World.callTerms (w.ends j.call) locks v
  | sent j locks brief change next, v =>
    w.events <+: v.events ∧
      (Process.errand brief change next).Leads World.callTerms (w.ends j.call) locks v

variable {w v : World} {p : Station}

theorem Stands.withCalls (h : p.Stands w v) (calls : List Nat) : p.Stands w (v.withCalls calls) := by
  have hrely : World.callTerms.rely v (v.withCalls calls) := ⟨calls, rfl⟩
  cases p with
  | nowhere =>
    have hv : v = w.withCalls v.calls := h
    have hcalls := congrArg (World.withCalls · calls) hv
    exact hcalls
  | ready j locks q => exact ⟨h.1, h.2.rely_pause hrely⟩
  | sent j locks brief change next => exact ⟨h.1, h.2.rely_errand hrely⟩
  | carried j locks delay q => exact ⟨h.1, h.2.rely_pause hrely⟩

end Station

/-- The call in progress is at the place `p`; besides it `others` are ready. -/
structure Stage (w : World) (p : Station) (l : Loop World Task Completion)
    (others : List (Nat × Activity)) : Prop where
  held : l.held = p.held
  errands : l.errands = p.errands
  carried : l.carried = p.word
  ready : (l.ready.map Ready.pair).Perm (p.own ++ others)
  stands : p.Stands w l.state

namespace Stage

variable {w : World} {p : Station} {j : Job} {l m : Loop World Task Completion}
  {others others' : List (Nat × Activity)}

theorem perm (h : Stage w p l others) (hp : others.Perm others') : Stage w p l others' :=
  { h with ready := h.ready.trans (hp.append_left _) }

/-- Those who are ready may be listed differently. -/
theorem reorder {rs : List (Ready World Task Completion)} (h : Stage w p l others)
    (hp : (rs.map Ready.pair).Perm (l.ready.map Ready.pair)) :
    Stage w p { l with ready := rs } others :=
  { h with ready := hp.trans h.ready }

/-- Others are ready in addition. -/
theorem ready_append (h : Stage w p l others) (rs : List (Ready World Task Completion)) :
    Stage w p { l with ready := l.ready ++ rs } (others ++ rs.map Ready.pair) := by
  refine { h with ready := ?_ }
  show ((l.ready ++ rs).map Ready.pair).Perm _
  rw [List.map_append, ← List.append_assoc]
  exact h.ready.append_right _

theorem finish (h : Stage w p l others) (n : Nat) (r : Completion) :
    Stage w p (l.finish n r)
      (others ++ (l.joining.filterMap (l.answering n r).woken?).map Ready.pair) := by
  have happ := h.ready_append (l.joining.filterMap (l.answering n r).woken?)
  rw [Loop.finish_eq]
  exact { happ with }

theorem map_pair_middle {as bs : List (Ready World Task Completion)} {r : Ready World Task Completion}
    (hl : l.ready = as ++ r :: bs) :
    (l.ready.map Ready.pair).Perm (r.pair :: (as ++ bs).map Ready.pair) := by
  rw [hl]
  exact List.perm_middle.map Ready.pair

/-- One of the others is taken from those who are ready. -/
theorem take {as bs : List (Ready World Task Completion)} {r : Ready World Task Completion}
    (h : Stage w p l (r.pair :: others)) (hl : l.ready = as ++ r :: bs) :
    Stage w p { l with ready := as ++ bs } others := by
  have hp : (r.pair :: (as ++ bs).map Ready.pair).Perm (r.pair :: (p.own ++ others)) :=
    (map_pair_middle hl).symm.trans (h.ready.trans List.perm_middle)
  exact { h with ready := hp.cons_inv }

/-- One who is ready is the call in progress, or somebody else. -/
theorem resume_cases {as bs : List (Ready World Task Completion)} {r : Ready World Task Completion}
    (h : Stage w p l others) (hl : l.ready = as ++ r :: bs) :
    (∃ j locks q, p = .ready j locks q ∧ r.pair = (j.task, q.bind Call.handOn) ∧
        ((as ++ bs).map Ready.pair).Perm others) ∨
      r.pair ∈ others := by
  have hp := (map_pair_middle hl).symm.trans h.ready
  have hmem : r.pair ∈ p.own ++ others := hp.subset List.mem_cons_self
  rcases List.mem_append.1 hmem with hown | hother
  · cases p with
    | ready j locks q =>
      have hr : r.pair = (j.task, q.bind Call.handOn) := List.mem_singleton.1 hown
      refine .inl ⟨j, locks, q, rfl, hr, ?_⟩
      rw [hr] at hp
      exact hp.cons_inv
    | _ => cases hown
  · exact .inr hother

/-- The call in progress went on for once: it is somewhere else now, or it has ended. -/
theorem of_stops (hw : w.events <+: l.state.events) (herrands : l.errands = [])
    (hcarried : l.carried = none) (hready : (l.ready.map Ready.pair).Perm others)
    (h : Loop.Stops World.callTerms (w.ends j.call) Task.activity j.task Call.handOn [.calls] l m) :
    (∃ p s held ready errands, p.job? = some j ∧ Stage w p m others ∧ s.calls = l.state.calls ∧
        m = { l with state := s, held := held, ready := ready, errands := errands }) ∨
      m = Loop.resume Task.activity j.task (Call.handOn (w.updater.perform j.call).result)
        { l with
          state := (w.after (w.updater.perform j.call)).withCalls l.state.calls
          held := [.calls] } := by
  cases h with
  | @ended held s r kept hend =>
    obtain ⟨hheld, ⟨calls, hs⟩, hr⟩ := hend
    -- the call leaves the calls as they were
    have hcalls : calls = l.state.calls := by
      rw [← kept.2, hs]
      rfl
    refine .inr ?_
    rw [hheld, hr, hs, hcalls]
    rfl
  | @paused held s q kept hleads =>
    refine .inl ⟨.ready j held q, s, held ++ [.calls], l.ready ++ [⟨0, j.task, q.bind Call.handOn⟩], l.errands,
      rfl, ?_, kept.2, rfl⟩
    refine ⟨rfl, herrands, hcarried, ?_, hw.trans kept.1, hleads⟩
    show ((l.ready ++ [_]).map Ready.pair).Perm _
    rw [List.map_append]
    exact (List.perm_append_singleton _ _).trans (hready.cons _)
  | @sent held s brief change next kept hleads =>
    refine .inl ⟨.sent j held brief change next, s, held ++ [.calls], l.ready, _, rfl, ?_, kept.2, rfl⟩
    exact ⟨rfl, by rw [herrands]; rfl, hcarried, hready, hw.trans kept.1, hleads⟩

/-- The worker carries out the errand of the call in progress. -/
theorem carryOut {e : Errand World Task Completion} {es : List (Errand World Task Completion)}
    (h : Stage w p l others) (he : l.errands = e :: es) :
    ∃ p', p'.job? = p.job? ∧ (e.change l.state).calls = l.state.calls ∧
      Stage w p' { l.carryOut e with errands := es } others := by
  have hp : p.errands = e :: es := h.errands ▸ he
  cases p with
  | sent j locks brief change next =>
    obtain ⟨rfl, rfl⟩ := List.cons.inj hp
    obtain ⟨hevents, hleads⟩ := h.stands
    obtain ⟨hkept, hnext⟩ := hleads l.state (World.callTerms.rely_refl _)
    refine ⟨.carried j locks 1 (next l.state), rfl, hkept.2, ?_⟩
    exact ⟨h.held, rfl, rfl, h.ready, hevents.trans hkept.1, hnext⟩
  | _ => cases hp

/-- The call in progress has word of its errand. -/
theorem report {r : Ready World Task Completion} (h : Stage w p l others) (hr : l.carried = some r) :
    ∃ p', p'.job? = p.job? ∧ Stage w p' l.report others := by
  have hp : p.word = some r := h.carried ▸ hr
  have hl : l.report = { l with carried := none, ready := l.ready ++ [r] } := by
    rw [Loop.report, hr]
    rfl
  cases p with
  | carried j locks delay q =>
    obtain rfl := Option.some.inj hp
    refine ⟨.ready j locks q, rfl, ?_⟩
    rw [hl]
    refine ⟨h.held, h.errands, rfl, ?_, h.stands⟩
    show ((l.ready ++ [_]).map Ready.pair).Perm _
    rw [List.map_append]
    exact (List.perm_append_singleton _ _).trans (h.ready.cons _)
  | _ => cases hp

end Stage

end LanguageUsage
