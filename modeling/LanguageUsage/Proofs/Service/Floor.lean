import LanguageUsage.Proofs.Service.Entries
import LanguageUsage.Proofs.Service.Settle

/-!
# Requests that are started together

Of requests that are started together only one at a time writes, and the others wait for it in the order in which they
have begun.

* `Floor`: which of them writes, and what the others wait for;
* `InOrder`: which of them have begun;
* `Gathering`: how they stand until all have ended;
* `Gathered`, `Gathered.finish`: how they stand up to the end, and when one ends.
-/

namespace LanguageUsage

/-! ### Who writes -/

/-- Nobody writes, or the first in line does, in the state that those in `past` have left. The others in line wait for
it, and those in `fresh` are ready. -/
inductive Floor (w : World) (past fresh : List Entrant) (l : Loop World Task Completion) : List Entrant → Prop
  | free (state : l.state = w.served past) (held : l.held = []) (blocked : l.blocked = [])
      (pending : l.pending.Perm (fresh.map Entrant.start)) : Floor w past fresh l []
  | taken {x : Entrant} {line : List Entrant} {n : Nat} (link : w.link? = .ok n) (frame : l.state.frame = w.frame)
      (blocked : l.blocked = line.map (Entrant.blocked n))
      (hosts : Loop.Hosts World.writeTerms ((w.served past).endsAdding x) handOn x.task [.writes]
        (fresh.map Entrant.start) l) : Floor w past fresh l (x :: line)

namespace Floor

variable {w : World} {past fresh line : List Entrant} {l : Loop World Task Completion}

/-- It does not matter who has answers, and who waits for them. -/
theorem update (h : Floor w past fresh l line) (answers : List (Nat × Completion))
    (joining : List (Joining World Task Completion)) :
    Floor w past fresh { l with answers := answers, joining := joining } line := by
  cases h with
  | free state held blocked pending => exact .free state held blocked pending
  | taken link frame blocked hosts =>
    obtain ⟨hq, hleads, hheld, hpending⟩ := hosts
    exact .taken link frame blocked (.intro hq hleads hheld hpending)

theorem objection? (h : Floor w past fresh l line) : l.state.store.objection? = w.store.objection? := by
  cases h with
  | free state held blocked pending =>
    rw [state]
    exact World.objection?_served w past
  | taken link frame blocked hosts => exact Store.objection?_of_frame_eq (congrArg World.store frame)

theorem link? (h : Floor w past fresh l line) : l.state.link? = w.link? := by
  cases h with
  | free state held blocked pending =>
    rw [state]
    exact World.link?_served w past
  | taken link frame blocked hosts => exact (World.eq_of_frame_eq frame).2.2.2

end Floor

/-- Those in line have begun. Those in `fresh` have not, and are ready. -/
structure InOrder (line fresh : List Entrant) (l : Loop World Task Completion) (begun : List Nat) : Prop where
  hasBegun : ∀ x ∈ line, x.task ∈ begun
  notBegun : ∀ x ∈ fresh, x.task ∉ begun
  ready : ∀ x ∈ fresh, x.task ∈ l.ready.map Ready.task

namespace InOrder

variable {line line' fresh : List Entrant} {l m : Loop World Task Completion} {begun : List Nat} {x : Entrant}

theorem mono (h : InOrder line fresh l begun) (hline : line' ⊆ line) (hready : l.ready ⊆ m.ready) :
    InOrder line' fresh m begun where
  hasBegun z hz := h.hasBegun z (hline hz)
  notBegun := h.notBegun
  ready z hz := List.map_subset _ hready (h.ready z hz)

/-- One who is ready is taken out, and is none of those that have not begun. -/
theorem take {as bs : List (Ready World Task Completion)} {r : Ready World Task Completion}
    (h : InOrder line fresh l begun) (hl : l.ready = as ++ r :: bs) (hr : ∀ z ∈ fresh, z.task ≠ r.task) :
    InOrder line fresh { l with ready := as ++ bs } (r.task :: begun) where
  hasBegun z hz := List.mem_cons_of_mem _ (h.hasBegun z hz)
  notBegun z hz := List.not_mem_cons_of_ne_of_not_mem (hr z hz) (h.notBegun z hz)
  ready z hz := by
    have hmem := h.ready z hz
    rw [hl, List.map_append, List.map_cons] at hmem
    rw [List.map_append]
    have hne := hr z hz
    simp only [List.mem_append, List.mem_cons] at hmem ⊢
    tauto

/-- The first of those that have not begun gets in line. -/
theorem begin {as bs : List (Ready World Task Completion)} {r : Ready World Task Completion}
    (h : InOrder line (x :: fresh) l begun) (hsorted : (x :: fresh).Pairwise fun x z => x.task < z.task)
    (hl : l.ready = as ++ r :: bs) (hr : r.task = x.task) :
    InOrder (line ++ [x]) fresh { l with ready := as ++ bs } (r.task :: begun) := by
  have hfresh : InOrder line fresh l begun :=
    ⟨h.hasBegun, fun z hz => h.notBegun z (List.mem_cons_of_mem _ hz),
      fun z hz => h.ready z (List.mem_cons_of_mem _ hz)⟩
  have hlt : ∀ z ∈ fresh, x.task < z.task := (List.pairwise_cons.1 hsorted).1
  have htake := hfresh.take hl fun z hz => by have hz := hlt z hz; omega
  refine ⟨fun z hz => ?_, htake.notBegun, htake.ready⟩
  rcases List.mem_append.1 hz with hz | hz
  · exact htake.hasBegun z hz
  · rw [List.mem_singleton.1 hz, hr]
    exact List.mem_cons_self

end InOrder

/-- The requests `as` were started together in the loop `l₀`, and have not all ended. -/
structure Gathering (l₀ : Loop World Task Completion) (as : List Addition) (y : Entrants)
    (c : Course World Task Completion) : Prop where
  entries : Entries l₀ as y c.loop
  floor : Floor l₀.state y.past y.fresh c.loop y.line
  order : InOrder y.line y.fresh c.loop c.begun
  joining : c.loop.joining = [l₀.gatherer as]
  unended : y.line ++ y.fresh ≠ []

/-- How requests end that were started together in the loop `l₀`. -/
def Loop.endsGather (l₀ : Loop World Task Completion) (as : List Addition) (held : List Lock) (v : World)
    (r : Completion) : Prop :=
  held = [] ∧ v = l₀.state.withStore (l₀.state.store.performAll (as.map Addition.operation)).1 ∧
    r = .ok (.replies (l₀.state.store.performAll (as.map Addition.operation)).2)

/-- The requests have not all ended, or the one that has waited for them is the last one. -/
inductive Gathered (l₀ : Loop World Task Completion) (as : List Addition) (c : Course World Task Completion) : Prop
  | going {y : Entrants} (h : Gathering l₀ as y c)
  | ending {l₁ : Loop World Task Completion} (lone : l₁.Lone l₀.started)
      (h : Loop.Single World.writeTerms (l₀.endsGather as) l₀.started l₁ c.loop)

/-! ### One has ended -/

section finish

variable {l₀ l m : Loop World Task Completion} {as : List Addition} {y : Entrants} {begun : List Nat} {x : Entrant}
  {past line fresh : List Entrant}

/-- When all requests have ended, the task that waits for them is the only one that has not. -/
theorem Entries.lone (hl : l₀.Quiescent) (h : Entries l₀ as ⟨past, [], []⟩ l) (hblocked : l.blocked = [])
    (hcalls : l.state.calls = l₀.state.calls) : Loop.Lone { l with joining := [] } l₀.started where
  blocked := hblocked
  joining := rfl
  answered n := by
    show (l.answer? n).isSome ↔ n < l.started ∧ n ≠ l₀.started
    refine ⟨fun hn => ⟨h.answered n hn, fun hmain => ?_⟩, fun ⟨hlt, hne⟩ => ?_⟩
    · rw [hmain, h.unanswered] at hn
      cases hn
    · by_cases hbefore : n < l₀.started
      · exact h.earlier n hbefore
      · -- it is one of the requests
        have hmem : n ∈ (l₀.entrants as).map Entrant.task := by
          have hstarted := h.started
          rw [Loop.entrants, map_task_numbered, List.mem_range'_1]
          omega
        obtain ⟨x, hx, rfl⟩ := List.mem_map.1 hmem
        have hanswer : l.answer? x.task ∈ (l₀.entrants as).map fun x => l.answer? x.task := List.mem_map_of_mem hx
        rw [h.answers.1] at hanswer
        obtain ⟨r, -, hr⟩ := List.mem_map.1 hanswer
        rw [← hr]
        rfl
  lt := by
    have hstarted := h.started
    show l₀.started < l.started
    omega
  submitted n hn := by
    have hstarted := h.started
    have hlt := hl.submitted n (hcalls ▸ hn)
    show n < l.started
    omega

/-- The last request has ended, and the one that has waited for all of them goes on to tell the answers. -/
theorem Gathered.finish_last (hl : l₀.Quiescent) {r : Completion}
    (entries : Entries l₀ as ⟨past, [], []⟩ (l.answering x.task r)) (floor : Floor l₀.state past [] l [])
    (joining : l.joining = [l₀.gatherer as]) : Gathered l₀ as ⟨l.finish x.task r, begun⟩ := by
  cases floor with
  | free state held blocked pending =>
    have hcalls : l.state.calls = l₀.state.calls := by rw [state]; rfl
    have hq : (Process.pause (.done (.ok (.replies (l₀.state.store.performAll (as.map Addition.operation)).2))) :
      Activity).Suspended := trivial
    have hheld : l.held = [] ++ [] := held
    rw [Loop.finish_of_joining joining, entries.answers?_of_ended]
    refine .ending (entries.lone hl blocked hcalls) (.going (.intro hq ?_ hheld ?_) rfl ⟨rfl, rfl, rfl, rfl⟩)
    · rintro _ rfl
      exact ⟨rfl, state.trans entries.answers.2, rfl⟩
    · refine (Loop.pending_ready_append (l := { l.answering x.task r with joining := [] }) _).trans ?_
      exact pending.cons _

/-- A request has ended, and it may have been the last one. -/
theorem Gathered.finish (hl : l₀.Quiescent) {r : Completion} (entries : Entries l₀ as y (l.answering x.task r))
    (floor : Floor l₀.state y.past y.fresh l y.line) (order : InOrder y.line y.fresh l begun)
    (joining : l.joining = [l₀.gatherer as]) : Gathered l₀ as ⟨l.finish x.task r, begun⟩ := by
  obtain ⟨past, line, fresh⟩ := y
  by_cases hnone : line ++ fresh = []
  · obtain ⟨rfl, rfl⟩ := List.append_eq_nil_iff.1 hnone
    exact .finish_last hl entries floor joining
  · rw [Loop.finish_of_joining joining, entries.answers?_of_unended hnone]
    exact .going ⟨entries, floor.update _ _, { order with }, joining, hnone⟩

end finish

end LanguageUsage
