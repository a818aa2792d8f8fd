import LanguageUsage.Proofs.Schedule.Single
import LanguageUsage.Proofs.Service.Alone

/-!
# An operation in any course

Where nothing is going on, an operation of a single part meets no other one, whoever goes on. It comes to what it comes
to on the store by itself, and then nothing is going on again.

* `Settles`: what comes of an operation in a course;
* `Loop.Lone`, `Loop.Lone.quiescent`: all tasks but one have ended, and then this one, too;
* `Loop.Quiescent.settles`: an operation of a single part.
-/

namespace LanguageUsage

/-- What comes of an operation that has begun in the loop `l`, in which nothing else is going on: if it has an answer,
the answer and the store are those that the store comes to by itself, and nothing is going on. It has one when nobody
can go on, and nobody goes on forever. -/
structure Settles (l : Loop World Task Completion) (o : Operation) (c : Course World Task Completion) : Prop where
  answered : ∀ r, c.loop.answer? l.started = some r →
    r = (l.state.store.perform o).2 ∧ c.loop.state.store = (l.state.store.perform o).1 ∧ c.loop.Quiescent
  atRest : c.AtRest Task.activity → (c.loop.answer? l.started).isSome
  acc : Acc (fun d c => Course.Goes Task.activity c d) c

/-! ### The last one -/

/-- All tasks but one have ended, and nobody waits. -/
structure Loop.Lone (l : Loop World Task Completion) (task : Nat) : Prop where
  blocked : l.blocked = []
  joining : l.joining = []
  answered : ∀ n, (l.answer? n).isSome ↔ n < l.started ∧ n ≠ task
  lt : task < l.started
  submitted : ∀ n ∈ l.state.calls, n < l.started

namespace Loop

variable {l m : Loop World Task Completion} {task : Nat} {T : Terms World}
  {post : List Lock → World → Completion → Prop}

theorem Lone.unanswered (h : l.Lone task) : l.answer? task = none := by
  rw [← Option.not_isSome_iff_eq_none, h.answered]
  exact fun hn => hn.2 rfl

/-- A task begins where nothing is going on. -/
theorem Quiescent.lone (h : l.Quiescent) : Lone { l with started := l.started + 1 } l.started where
  blocked := h.blocked
  joining := h.joining
  answered n := (h.answered n).trans ⟨fun hn => ⟨Nat.lt_succ_of_lt hn, Nat.ne_of_lt hn⟩, fun ⟨hn, hne⟩ => by
    have hn : n < l.started + 1 := hn
    omega⟩
  lt := Nat.lt_succ_self _
  submitted n hn := Nat.lt_succ_of_lt (h.submitted n hn)

/-- When the last one has ended, nothing is going on. -/
theorem Lone.quiescent (h : l.Lone task) (hcalls : ∀ w v, T.guarantee w v → v.calls = w.calls)
    (hpost : ∀ held v r, post held v r → held = [] ∧ v.Quiet) (hm : Single T post task l m) {r : Completion}
    (hr : m.answer? task = some r) : post m.held m.state r ∧ m.Quiescent := by
  obtain ⟨hend, hkept, hidle, hstarted, hanswers⟩ := hm.answered h.unanswered hr
  obtain ⟨hheld, hquiet⟩ := hpost _ _ _ hend
  refine ⟨hend, hidle.ready, hidle.errands, hidle.carried, hheld, hidle.blocked, hidle.joining, hquiet, fun n => ?_,
    fun n hn => ?_⟩
  · have hlast : m.answer? n = (l.answering task r).answer? n := by rw [answer?, hanswers]; rfl
    rw [hlast, hstarted]
    by_cases hn : n = task
    · rw [hn, answer?_answering_self]
      exact ⟨fun _ => h.lt, fun _ => rfl⟩
    · rw [answer?_answering_ne hn, h.answered]
      exact ⟨And.left, fun hlt => ⟨hlt, hn⟩⟩
  · rw [hcalls _ _ hkept] at hn
    rw [hstarted]
    exact h.submitted n hn

end Loop

theorem Loop.Quiescent.childless {l : Loop World Task Completion} (h : l.Quiescent) : l.Childless where
  ready := by rw [h.ready]; exact List.forall_mem_nil _
  errands := by rw [h.errands]; exact List.forall_mem_nil _
  carried := by rw [h.carried]; rintro r ⟨⟩
  blocked := by rw [h.blocked]; exact List.forall_mem_nil _
  joining := by rw [h.joining]; exact List.forall_mem_nil _

theorem Course.childless_of_moves {c d : Course World Task Completion} (hc : c.loop.Childless)
    (hm : Relation.ReflTransGen (Course.Moves Task.activity) c d) : d.loop.Childless := by
  induction hm with
  | refl => exact hc
  | tail _ hm ih => exact hm.childless ih

/-! ### Operations of a single part -/

theorem Process.Within.childless {α : Type} {n : Nat} {p : Process World Task Completion α} (h : p.Within n) :
    p.Childless := by
  induction p generalizing n with
  | done a => trivial
  | act change next ih => exact fun s => ih s (h s)
  | pause next ih => exact ih h.choose_spec.2
  | errand brief change next ih => exact fun s => ih s (h.choose_spec.2 s)
  | acquire lock next ih => exact ih h
  | release lock next ih => exact ih h
  | start task next => exact h.elim
  | join tasks gathered next => exact h.elim

/-- **An operation of a single part**, in any course. -/
theorem Loop.Quiescent.settles {l : Loop World Task Completion} {o : Operation} {c : Course World Task Completion}
    (hl : l.Quiescent) (ho : l.state.store.Carries o)
    (hc : Relation.ReflTransGen (Course.Moves Task.activity) (Course.enter Task.activity o.work.run ⟨l, []⟩) c) :
    Settles l o c := by
  -- what the operation ends with
  let post : List Lock → World → Completion → Prop := fun held v r =>
    held = [] ∧ v.Quiet ∧ v.store = (l.state.store.perform o).1 ∧ r = (l.state.store.perform o).2
  have hleads : o.work.run.Leads World.callTerms post [] l.state :=
    Operation.leads_work ho hl.quiet List.not_mem_nil fun v hv hupdater _ =>
      ⟨rfl, hv, congrArg Updater.store hupdater, rfl⟩
  have hlone := hl.lone
  have hsingle : Loop.Single World.callTerms post l.started { l with started := l.started + 1 } c.loop :=
    (Loop.single_enter [] hl.idle hl.held hleads).moves_all hlone.blocked hlone.joining hc
  have hstarted : Loop.Childless { l with started := l.started + 1 } := { hl.childless with }
  refine ⟨fun r hr => ?_, hsingle.atRest, Course.acc_goes (Course.childless_of_moves ?_ hc)⟩
  · have hcalls : ∀ w v, World.callTerms.guarantee w v → v.calls = w.calls := fun _ _ h => h.2
    obtain ⟨⟨-, -, hstore, hr⟩, hquiescent⟩ := hlone.quiescent hcalls (fun _ _ _ h => ⟨h.1, h.2.1⟩) hsingle hr
    exact ⟨hr, hstore, hquiescent⟩
  · exact hstarted.resume (Operation.within_work ho).childless

end LanguageUsage
