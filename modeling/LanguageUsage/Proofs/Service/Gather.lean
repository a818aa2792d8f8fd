import LanguageUsage.Proofs.Service.Floor

/-!
# Requests that are started together, in any course

Requests that are started together come in between each other. In every course they come to what they come to one after
another, in the order of their start.

* `Gathering.passOn`, `Gathering.of_stops`, `Gathering.begin`: when one has made its change, goes on, or begins;
* `Gathering.resume`, `Gathered.moves`: a course keeps how they stand;
* `Loop.Quiescent.settles_gather`: what they come to.
-/

namespace LanguageUsage

/-! ### Who goes on -/

namespace Gathering

variable {l₀ l m : Loop World Task Completion} {as : List Addition} {y : Entrants} {begun : List Nat} {x : Entrant}
  {past line fresh : List Entrant} {n : Nat} {i : Increment}

/-- The first in line has made its change. If others are waiting, the next of them may write. -/
theorem passOn (hl : l₀.Quiescent) (hlink : l₀.state.link? = .ok n) (entries : Entries l₀ as ⟨past, x :: line, fresh⟩ l)
    (order : InOrder (x :: line) fresh l begun) (joining : l.joining = [l₀.gatherer as])
    (blocked : l.blocked = line.map (Entrant.blocked n)) (pending : l.pending.Perm (fresh.map Entrant.start))
    (held : l.held = [.writes]) (state : l.state = l₀.state.served (past ++ [x])) :
    Gathered l₀ as ⟨(l.free .writes).finish x.task ((l₀.state.served past).store.perform x.operation).2, begun⟩ := by
  cases line with
  | nil =>
    -- nobody waits: the lock is free again
    let m : Loop World Task Completion := { l with held := [] }
    have hfree : l.free .writes = m := by
      rw [Loop.free_of_forall_ne (by simp [blocked]), held]
      rfl
    rw [hfree]
    have hentries : Entries l₀ as ⟨past, [x], fresh⟩ m := entries.congr rfl rfl
    have horder : InOrder [] fresh m begun := order.mono (List.nil_subset _) fun _ => id
    exact .finish hl hentries.serve (.free state rfl blocked pending) horder joining
  | cons z line =>
    let m : Loop World Task Completion :=
      { l.enqueue ⟨0, z.task, z.process n⟩ with blocked := line.map (Entrant.blocked n) }
    -- the first one who waits holds it from now on
    have happ : l.blocked = [] ++ z.blocked n :: line.map (Entrant.blocked n) := blocked
    have hfree : l.free .writes = m := Loop.free_of_eq_append happ rfl (by simp)
    have hentries : Entries l₀ as ⟨past, x :: z :: line, fresh⟩ m := entries.congr rfl rfl
    obtain ⟨i, hi⟩ := entries.exists_checked hlink (List.mem_cons_of_mem _ List.mem_cons_self)
    have hprocess : z.process n = (Work.writeInTurn n i).run.bind handOn := by
      rw [Entrant.process, hi]
    have hleads := (hl.quiet.served (past ++ [x])).leads_entrant ((World.link?_served _ _).trans hlink) hi
    rw [hfree]
    have hframe : l.state.frame = l₀.state.frame := by rw [state, World.frame_served_of_link? hlink]
    refine .finish hl hentries.serve (.taken hlink hframe rfl ?_)
      (order.mono (List.subset_cons_self _ _) (List.subset_append_left _ _)) joining
    have hq : (Process.pause (Work.writeInTurn n i).run).Suspended := trivial
    have hheld : m.held = [] ++ [.writes] := held
    refine .intro hq ?_ hheld ?_
    · rintro v rfl
      show Process.Leads _ _ _ _ l.state
      rw [state]
      exact hleads
    · refine (Loop.pending_enqueue ⟨0, z.task, z.process n⟩).trans ?_
      rw [hprocess]
      exact pending.cons _

/-- The first in line goes on for once. -/
theorem of_stops (hl : l₀.Quiescent) (hlink : l₀.state.link? = .ok n)
    (entries : Entries l₀ as ⟨past, x :: line, fresh⟩ l) (order : InOrder (x :: line) fresh l begun)
    (joining : l.joining = [l₀.gatherer as]) (blocked : l.blocked = line.map (Entrant.blocked n))
    (pending : l.pending.Perm (fresh.map Entrant.start)) (frame : l.state.frame = l₀.state.frame)
    (stops : Loop.Stops World.writeTerms ((l₀.state.served past).endsAdding x) Task.activity x.task
      handOn [.writes] l m) : Gathered l₀ as ⟨m, begun⟩ := by
  rcases Loop.Hosts.of_stops pending stops with ⟨hosts, hkept, hready, hbeside⟩ | ⟨held, v, r, -, ⟨rfl, rfl, hr⟩, rfl⟩
  · -- it has to wait again
    refine .going (y := ⟨past, x :: line, fresh⟩) ⟨entries.congr hbeside.answers hbeside.started, ?_,
      order.mono (fun _ => id) hready.subset, hbeside.joining.trans joining, List.cons_ne_nil _ _⟩
    exact .taken hlink (hkept.trans frame) (hbeside.blocked.trans blocked) hosts
  · show Gathered l₀ as ⟨Loop.finish _ x.task (r.map .count), begun⟩
    rw [hr]
    exact passOn hl hlink (entries.congr rfl rfl) { order with } joining blocked pending rfl
      (World.served_concat _ _ _).symm

/-- One that begins makes its change at once, when nobody writes. -/
theorem addAtOnce (hl : l₀.Quiescent) (entries : Entries l₀ as ⟨past, [x], fresh⟩ l)
    (floor : Floor l₀.state past fresh l []) (order : InOrder [x] fresh l begun)
    (joining : l.joining = [l₀.gatherer as]) :
    Gathered l₀ as ⟨Loop.finish { l with state := l.state.served [x] } x.task
      (l.state.store.perform x.operation).2, begun⟩ := by
  cases floor with
  | free state held blocked pending =>
    let m : Loop World Task Completion := { l with state := l.state.served [x] }
    have hentries : Entries l₀ as ⟨past, [x], fresh⟩ m := entries.congr rfl rfl
    have horder : InOrder [] fresh m begun := { order.mono (List.nil_subset _) fun _ => id with }
    have hserve := hentries.serve
    rw [← state] at hserve
    refine .finish (l := m) hl hserve (.free ?_ held blocked pending) horder joining
    show l.state.served [x] = _
    rw [state, World.served_concat]

/-- One that begins may write at once, when nobody writes. -/
theorem write (hl : l₀.Quiescent) (hlink : l₀.state.link? = .ok n) (hi : x.addition.checked = .ok i)
    (entries : Entries l₀ as ⟨past, [x], fresh⟩ l) (floor : Floor l₀.state past fresh l [])
    (order : InOrder [x] fresh l begun) (joining : l.joining = [l₀.gatherer as]) :
    Gathered l₀ as ⟨Loop.resume Task.activity x.task
      (.acquire .writes ((Work.writeInTurn n i).run.bind handOn)) l, begun⟩ := by
  cases floor with
  | free state held blocked pending =>
    let m : Loop World Task Completion := { l with held := [.writes] }
    have hlocks : m.held = [] ++ [.writes] := rfl
    rw [Loop.resume, if_neg (by rw [held]; exact List.not_mem_nil), held]
    have hframe : l.state.frame = l₀.state.frame := by rw [state, World.frame_served_of_link? hlink]
    refine of_stops (l := m) hl hlink (entries.congr rfl rfl) { order with } joining blocked pending hframe
      (Loop.stops_writeTerms _ hlocks ?_)
    show Process.Leads _ _ _ _ l.state
    rw [state]
    exact (hl.quiet.served past).leads_entrant ((World.link?_served _ _).trans hlink) hi

/-- One that begins waits until it may write, when another one writes. -/
theorem wait {z : Entrant} (hlink : l₀.state.link? = .ok n) (hi : x.addition.checked = .ok i)
    (entries : Entries l₀ as ⟨past, z :: line ++ [x], fresh⟩ l) (floor : Floor l₀.state past fresh l (z :: line))
    (order : InOrder (z :: line ++ [x]) fresh l begun) (joining : l.joining = [l₀.gatherer as]) :
    Gathered l₀ as ⟨Loop.resume Task.activity x.task
      (.acquire .writes ((Work.writeInTurn n i).run.bind handOn)) l, begun⟩ := by
  cases floor with
  | @taken _ _ n' link frame blocked hosts =>
    obtain rfl : n' = n := Except.ok.inj (link.symm.trans hlink)
    obtain ⟨hq, hleads, hheld, hpending⟩ := hosts
    have hwrites : Lock.writes ∈ l.held := by
      rw [hheld]
      exact List.mem_append_right _ (List.mem_singleton_self _)
    have hblocked : l.blocked ++ [⟨.writes, x.task, (Work.writeInTurn n' i).run.bind handOn⟩] =
        (line ++ [x]).map (Entrant.blocked n') := by
      have hx : x.blocked n' = ⟨.writes, x.task, (Work.writeInTurn n' i).run.bind handOn⟩ := by
        rw [Entrant.blocked, Entrant.process, hi]
      rw [blocked, List.map_append, List.map_singleton, hx]
    rw [Loop.resume, if_pos hwrites]
    exact .going ⟨entries.congr rfl rfl, .taken hlink frame hblocked (.intro hq hleads hheld hpending), { order with },
      joining, List.cons_ne_nil _ _⟩

/-- A request begins: it is over at once, or makes its change, or waits until it may. -/
theorem begin (hl : l₀.Quiescent) (h : Gathering l₀ as y ⟨l, begun⟩) (hy : y.fresh = x :: fresh)
    {as' bs : List (Ready World Task Completion)} {r : Ready World Task Completion}
    (hready : l.ready = as' ++ r :: bs) (hr : x.start = (r.task, .pause r.process))
    (floor : Floor l₀.state y.past fresh { l with ready := as' ++ bs } y.line) :
    Gathered l₀ as ⟨Loop.resume Task.activity r.task r.process { l with ready := as' ++ bs }, r.task :: begun⟩ := by
  obtain ⟨past, line, fresh'⟩ := y
  obtain rfl : fresh' = x :: fresh := hy
  obtain ⟨htask, hprocess⟩ := Prod.mk.inj hr
  have hprocess : (Task.operation x.operation).activity = r.process := Process.pause.inj hprocess
  have hsorted : (x :: fresh).Pairwise fun x z => x.task < z.task :=
    (pairwise_numbered _ as).sublist h.entries.suffix.sublist
  let l' : Loop World Task Completion := { l with ready := as' ++ bs }
  have horder : InOrder (line ++ [x]) fresh l' (r.task :: begun) := h.order.begin hsorted hready htask.symm
  have hentries : Entries l₀ as ⟨past, line, x :: fresh⟩ l' := h.entries.congr rfl rfl
  have hobjection : l'.state.store.objection? = l₀.state.store.objection? := floor.objection?
  have hlink : l'.state.link? = l₀.state.link? := floor.link?
  rw [← hprocess, ← htask] at *
  rcases Loop.resume_addition l' x with ⟨f, hf, hresume⟩ | ⟨hnone, ⟨f, hf⟩, hresume⟩ | ⟨i, n, hi, hn, hresume⟩
  · rw [hobjection] at hf
    rw [hresume]
    exact .finish hl (hentries.turnDown hf) floor (horder.mono (List.subset_append_left _ _) fun _ => id) h.joining
  · have hpass : x.passes l₀.state.store = true := by
      rw [Entrant.passes, ← hobjection, hnone]
      rfl
    rw [hresume]
    cases line with
    | nil => exact addAtOnce hl (hentries.lineUp hpass) floor horder h.joining
    | cons z line =>
      -- there is nowhere to write to, so that nobody writes
      cases floor with
      | taken link => rw [hlink, link] at hf; cases hf
  · have hpass : x.passes l₀.state.store = true := by
      rw [Entrant.passes, ← hobjection]
      cases hs : l'.state.store <;> simp [Store.objection?, hi]
    rw [hlink] at hn
    rw [hresume]
    cases line with
    | nil => exact write hl hn hi (hentries.lineUp hpass) floor horder h.joining
    | cons z line => exact wait hn hi (hentries.lineUp hpass) floor horder h.joining

/-- A request that begins was started before all others that have not begun: these are ready, too. -/
theorem eq_first (h : Gathering l₀ as y ⟨l, begun⟩) {as' bs : List (Ready World Task Completion)}
    {r : Ready World Task Completion} (hready : l.ready = as' ++ r :: bs)
    (order : r.task ∈ begun ∨ ∀ q ∈ as' ++ bs, q.task ∈ begun ∨ r.task ≤ q.task) (hy : y.fresh = x :: fresh)
    {z : Entrant} (hz : z ∈ y.fresh) (htask : z.task = r.task) : z = x := by
  have hsorted := (pairwise_numbered _ as).sublist h.entries.suffix.sublist
  rw [hy] at hsorted
  rcases List.mem_cons.1 (hy ▸ hz) with rfl | hz'
  · rfl
  · have hxz : x.task < z.task := (List.pairwise_cons.1 hsorted).1 z hz'
    have hx : x ∈ y.fresh := by rw [hy]; exact List.mem_cons_self
    have hmem : x.task ∈ l.ready.map Ready.task := h.order.ready x hx
    -- the process of `x` is among those that are ready
    obtain ⟨q, hq, hqtask⟩ := List.mem_map.1 hmem
    have hqrest : q ∈ as' ++ bs := by
      rw [hready] at hq
      rcases List.mem_append.1 hq with hq | hq
      · exact List.mem_append_left _ hq
      · rcases List.mem_cons.1 hq with rfl | hq
        · omega
        · exact List.mem_append_right _ hq
    have hr : r.task ∉ begun := htask ▸ h.order.notBegun z hz
    rcases order.resolve_left hr q hqrest with hbegun | hlt
    · exact absurd (hqtask ▸ hbegun) (h.order.notBegun x hx)
    · omega

/-- One that begins is the first of those that have not begun, and the others stay ready. -/
theorem first_of_starts (h : Gathering l₀ as y ⟨l, begun⟩) {as' bs : List (Ready World Task Completion)}
    {r : Ready World Task Completion} (hready : l.ready = as' ++ r :: bs)
    (order : r.task ∈ begun ∨ ∀ q ∈ as' ++ bs, q.task ∈ begun ∨ r.task ≤ q.task) {xs ys : List (Nat × Activity)}
    (hxs : y.fresh.map Entrant.start = xs ++ (r.task, .pause r.process) :: ys) :
    ∃ x fresh, y.fresh = x :: fresh ∧ x.start = (r.task, .pause r.process) ∧
      (xs ++ ys).Perm (fresh.map Entrant.start) := by
  have hmem : (r.task, Process.pause r.process) ∈ y.fresh.map Entrant.start := by
    rw [hxs]
    exact List.mem_append_right _ List.mem_cons_self
  obtain ⟨z, hz, hstart⟩ := List.mem_map.1 hmem
  obtain ⟨x, fresh, hy⟩ := List.exists_cons_of_ne_nil (List.ne_nil_of_mem hz)
  obtain rfl : z = x := h.eq_first hready order hy hz (congrArg Prod.fst hstart)
  refine ⟨z, fresh, hy, hstart, ?_⟩
  rw [hy, List.map_cons, hstart] at hxs
  exact (List.perm_middle.symm.trans (.of_eq hxs.symm)).cons_inv

/-- Somebody who is ready goes on. -/
theorem resume (hl : l₀.Quiescent) (h : Gathering l₀ as y ⟨l, begun⟩) {as' bs : List (Ready World Task Completion)}
    {r : Ready World Task Completion} (hready : l.ready = as' ++ r :: bs)
    (order : r.task ∈ begun ∨ ∀ q ∈ as' ++ bs, q.task ∈ begun ∨ r.task ≤ q.task) :
    Gathered l₀ as ⟨Loop.resume Task.activity r.task r.process { l with ready := as' ++ bs }, r.task :: begun⟩ := by
  obtain ⟨past, line, fresh⟩ := y
  cases h.floor with
  | free state held blocked pending =>
    have hperm := (Loop.pending_take hready).symm.trans pending
    obtain ⟨xs, ys, hxs⟩ := List.append_of_mem (hperm.subset List.mem_cons_self)
    obtain ⟨x, fresh', rfl, hstart, hrest⟩ := h.first_of_starts hready order hxs
    refine h.begin hl rfl hready hstart (.free state held blocked ?_)
    rw [hxs] at hperm
    exact (hperm.trans List.perm_middle).cons_inv.trans hrest
  | @taken x line n link frame blocked hosts =>
    rcases hosts.resume_cases hready with ⟨locks, q, htask, hprocess, hleads, hheld, hpending⟩ | ⟨xs, ys, hxs, hrest⟩
    · -- it is the one that writes
      have hx : r.task ∈ begun := htask ▸ h.order.hasBegun x List.mem_cons_self
      have htake := h.order.take hready fun z hz hzr => h.order.notBegun z hz (hzr ▸ hx)
      rw [htask] at htake
      rw [hprocess, htask]
      let m : Loop World Task Completion := { l with ready := as' ++ bs }
      refine of_stops (l := m) hl link (h.entries.congr rfl rfl) htake h.joining blocked hpending frame ?_
      exact Loop.stops_writeTerms q hheld hleads
    · obtain ⟨x', fresh', rfl, hstart, hperm⟩ := h.first_of_starts hready order hxs
      obtain ⟨hq, hleads, hheld, hpending⟩ := hrest
      exact h.begin hl rfl hready hstart
        (.taken link frame blocked (.intro hq hleads hheld (hpending.trans (hperm.cons _))))

/-- If the worker is on an errand, it is one of the first in line. -/
theorem carryOut (h : Gathering l₀ as y ⟨l, begun⟩) {e : Errand World Task Completion}
    {es : List (Errand World Task Completion)} (hc : l.carried = none) (he : l.errands = e :: es) :
    Gathering l₀ as y ⟨{ l.carryOut e with errands := es }, begun⟩ := by
  obtain ⟨past, line, fresh⟩ := y
  have hstarts : ∀ v ∈ fresh.map Entrant.start, ∃ p, v.2 = .pause p := by
    intro v hv
    obtain ⟨x, -, rfl⟩ := List.mem_map.1 hv
    exact ⟨_, rfl⟩
  refine ⟨h.entries.congr rfl rfl, ?_, { h.order with }, h.joining, h.unended⟩
  cases h.floor with
  | free state held blocked pending =>
    obtain ⟨p, hp⟩ := hstarts _ (((Loop.pending_carryOut hc he).1.symm.trans pending).subset List.mem_cons_self)
    cases hp
  | taken link frame blocked hosts =>
    obtain ⟨hosts', hkept⟩ := hosts.carryOut hstarts hc he
    exact .taken link (hkept.trans frame) blocked hosts'

theorem report (h : Gathering l₀ as y ⟨l, begun⟩) {r : Ready World Task Completion} (hr : l.carried = some r) :
    Gathering l₀ as y ⟨l.report, begun⟩ := by
  have hl : l.report = { l with carried := none, ready := l.ready ++ [r] } := by
    rw [Loop.report, hr]
    rfl
  have hpending := Loop.pending_report l
  rw [hl] at hpending ⊢
  refine ⟨h.entries.congr rfl rfl, ?_, h.order.mono (fun _ => id) (List.subset_append_left _ _), h.joining,
    h.unended⟩
  obtain ⟨past, line, fresh⟩ := y
  cases h.floor with
  | free state held blocked pending => exact .free state held blocked (hpending.trans pending)
  | taken link frame blocked hosts =>
    obtain ⟨hq, hleads, hheld, hp⟩ := hosts
    exact .taken link frame blocked (.intro hq hleads hheld (hpending.trans hp))

theorem pass (h : Gathering l₀ as y ⟨l, begun⟩) {as' bs : List (Ready World Task Completion)}
    {r : Ready World Task Completion} (hready : l.ready = as' ++ r :: bs) (delay : Nat) :
    Gathering l₀ as y ⟨{ l with ready := as' ++ bs ++ [{ r with delay := delay }] }, begun⟩ := by
  have hpending := Loop.pending_pass hready delay
  have hmem : ∀ t ∈ l.ready.map Ready.task, t ∈ (as' ++ bs ++ [{ r with delay := delay }]).map Ready.task := by
    intro t ht
    simp only [hready, List.map_append, List.map_cons, List.map_nil, List.mem_append, List.mem_cons,
      List.not_mem_nil, or_false] at ht ⊢
    tauto
  refine ⟨h.entries.congr rfl rfl, ?_, { h.order with ready := fun x hx => hmem _ (h.order.ready x hx) }, h.joining,
    h.unended⟩
  obtain ⟨past, line, fresh⟩ := y
  cases h.floor with
  | free state held blocked pending => exact .free state held blocked (hpending.trans pending)
  | taken link frame blocked hosts => exact .taken link frame blocked (hosts.pass hready delay)

/-- As long as they have not all ended, somebody can go on. -/
theorem not_atRest {c : Course World Task Completion} (h : Gathering l₀ as y c) : ¬ c.AtRest Task.activity := by
  intro hrest
  obtain ⟨past, line, fresh⟩ := y
  obtain ⟨z, hz⟩ := List.exists_mem_of_ne_nil _ h.unended
  have hfresh : ∀ z, z ∉ fresh := by
    intro z hz
    have hready := h.order.ready z hz
    rw [hrest.ready] at hready
    cases hready
  cases h.floor with
  | free state held blocked pending => exact hfresh z hz
  | taken link frame blocked hosts =>
    -- the one that writes could go on
    obtain ⟨-, -, -, hpending⟩ := hosts
    rw [Loop.pending, hrest.ready, hrest.errands, hrest.carried] at hpending
    cases hpending.symm.eq_nil

end Gathering

/-! ### All of it -/

namespace Gathered

variable {l₀ : Loop World Task Completion} {as : List Addition} {c d : Course World Task Completion}

/-- **A course keeps the order of the requests**, whoever goes on. -/
theorem moves (hl : l₀.Quiescent) (h : Gathered l₀ as c) (hm : Course.Moves Task.activity c d) :
    Gathered l₀ as d := by
  cases h with
  | ending lone h => exact .ending lone (h.moves lone.blocked lone.joining hm)
  | going h =>
    rcases hm with hgo | hpass
    · cases hgo with
      | resume ready order => exact h.resume hl ready order
      | carryOut carried errands => exact .going (h.carryOut carried errands)
      | report carried => exact .going (h.report carried)
    · cases hpass with
      | later ready delay => exact .going (h.pass ready delay)

theorem moves_all (hl : l₀.Quiescent) (h : Gathered l₀ as c)
    (hm : Relation.ReflTransGen (Course.Moves Task.activity) c d) : Gathered l₀ as d := by
  induction hm with
  | refl => exact h
  | tail _ hm ih => exact ih.moves hl hm

end Gathered

/-- Requests are started together: none of them has begun yet. -/
theorem resume_gather (as : List Addition) (t : Nat) (l : Loop World Task Completion) :
    Loop.resume Task.activity t (Operation.gather (as.map Addition.operation)).work.run l =
      Loop.resume Task.activity t
        (.join ((numbered l.started as).map Entrant.task) true fun rs => .done (.ok (.replies rs))) (l.startEach as) := by
  rw [Operation.work, Work.run_bind]
  exact Loop.resume_startAll t as _ l

namespace Loop.Quiescent

variable {l : Loop World Task Completion} {as : List Addition}

theorem answer?_eq_none (hl : l.Quiescent) {n : Nat} (hn : l.started ≤ n) : l.answer? n = none := by
  rw [← Option.not_isSome_iff_eq_none, hl.answered]
  omega

/-- All requests are started, and none has begun. -/
theorem gathering (hl : l.Quiescent) (has : as ≠ []) :
    Gathering l as ⟨[], [], l.entrants as⟩
      ⟨{ Loop.startEach { l with started := l.started + 1 } as with joining := [l.gatherer as] }, [l.started]⟩ := by
  have hlater : ∀ x ∈ l.entrants as, l.started < x.task := fun x hx => (task_of_mem_numbered hx).1
  let m : Loop World Task Completion := { l with started := l.started + 1, joining := [l.gatherer as] }
  refine ⟨⟨rfl, fun n hn => (hl.answered n).2 hn, hl.answer?_eq_none (Nat.le_refl _), fun n hn => ?_, rfl,
    List.suffix_rfl, rfl, fun x hx hnot => absurd hx hnot, fun x hx => ?_⟩, .free rfl hl.held hl.blocked ?_,
    ⟨List.forall_mem_nil _, fun x hx => ?_, fun x hx => ?_⟩, rfl, fun hnil => has ?_⟩
  · have hlt := (hl.answered n).1 hn
    show n < l.started + 1 + as.length
    omega
  · exact hl.answer?_eq_none (Nat.le_of_lt (hlater x hx))
  · refine (Loop.pending_ready_append (l := m) _).trans (.of_eq ?_)
    have hnobody : m.pending = [] := hl.idle.pending
    rw [hnobody, List.append_nil, List.map_map]
    rfl
  · have hlt := hlater x hx
    simp only [List.mem_singleton]
    omega
  · show x.task ∈ (l.ready ++ _).map Ready.task
    rw [List.map_append, List.map_map]
    exact List.mem_append_right _ (List.mem_map_of_mem (f := Entrant.task) hx)
  · have hlength := congrArg List.length hnil
    rw [List.nil_append, Loop.entrants, length_numbered] at hlength
    exact List.length_eq_zero_iff.1 hlength

theorem gathered_enter (hl : l.Quiescent) (as : List Addition) :
    Gathered l as (Course.enter Task.activity (Operation.gather (as.map Addition.operation)).work.run ⟨l, []⟩) := by
  let l₁ : Loop World Task Completion := { l with started := l.started + 1 }
  rw [Course.enter, resume_gather]
  show Gathered l as ⟨Loop.resume Task.activity l.started _ (l₁.startEach as), [l.started]⟩
  cases as with
  | nil =>
    -- there is nothing to wait for
    have hsame : l₁.startEach [] = l₁ := by simp [Loop.startEach, numbered]
    have hend : Loop.resume Task.activity l.started (.join [] true fun rs => .done (.ok (.replies rs))) l₁ =
        l₁.answering l.started (.ok (.replies [])) := Idle.finish hl.idle.update _
    rw [hsame]
    refine .ending hl.lone ?_
    show Loop.Single _ _ _ l₁
      (Loop.resume Task.activity l.started (.join [] true fun rs => .done (.ok (.replies rs))) l₁)
    rw [hend]
    exact .ended (.ok (.replies [])) ⟨hl.held, rfl, rfl⟩ rfl ⟨hl.ready, hl.errands, hl.carried, hl.blocked, hl.joining⟩
      rfl rfl
  | cons a as =>
    have hjoining : l.joining = [] := hl.joining
    have hanswers : (l₁.startEach (a :: as)).answers? ((l.entrants (a :: as)).map Entrant.task) = none := by
      rw [← Option.not_isSome_iff_eq_none, Loop.isSome_answers?]
      intro h
      have hfirst := h (l.started + 1) List.mem_cons_self
      have hnone := hl.answer?_eq_none (Nat.le_succ l.started)
      rw [show (l₁.startEach (a :: as)).answer? (l.started + 1) = l.answer? (l.started + 1) from rfl, hnone] at hfirst
      cases hfirst
    have hgather := hl.gathering (List.cons_ne_nil a as)
    show Gathered l _ ⟨Loop.resume Task.activity l.started
      (.join ((l.entrants (a :: as)).map Entrant.task) true _) (l₁.startEach (a :: as)), [l.started]⟩
    rw [Loop.resume, hanswers]
    show Gathered l _ ⟨{ l₁.startEach (a :: as) with joining := l.joining ++ [l.gatherer (a :: as)] }, [l.started]⟩
    rw [hjoining]
    exact .going hgather

theorem childless_gather (hl : l.Quiescent) (as : List Addition) :
    (Course.enter Task.activity (Operation.gather (as.map Addition.operation)).work.run ⟨l, []⟩).loop.Childless := by
  have hready : ∀ r ∈ l.ready ++ (l.entrants as).map (fun x => (⟨0, x.task, (Task.operation x.operation).activity⟩ :
      Ready World Task Completion)), r.process.Childless := by
    intro r hr
    rw [hl.ready, List.nil_append] at hr
    obtain ⟨x, -, rfl⟩ := List.mem_map.1 hr
    exact Work.childless_bind (Work.childless_upsert _ _ _) fun _ => Work.childless_pure _
  have hstarted : Loop.Childless (Loop.startEach { l with started := l.started + 1 } as) :=
    { hl.childless with ready := hready }
  rw [Course.enter, resume_gather]
  exact hstarted.resume fun _ => trivial

/-- **Requests that are started together.** Whoever goes on, they come to what they come to one after another. -/
theorem settles_gather (hl : l.Quiescent) (as : List Addition) {c : Course World Task Completion}
    (hc : Relation.ReflTransGen (Course.Moves Task.activity)
      (Course.enter Task.activity (Operation.gather (as.map Addition.operation)).work.run ⟨l, []⟩) c) :
    Settles l (.gather (as.map Addition.operation)) c := by
  have hgathered := (hl.gathered_enter as).moves_all hl hc
  refine ⟨fun r hr => ?_, fun hrest => ?_, Course.acc_goes (Course.childless_of_moves (hl.childless_gather as) hc)⟩
  · cases hgathered with
    | going h => rw [h.entries.unanswered] at hr; cases hr
    | ending lone h =>
      have hpost : ∀ held v r, l.endsGather as held v r → held = [] ∧ v.Quiet := by
        rintro held v r ⟨hheld, rfl, -⟩
        refine ⟨hheld, ?_⟩
        have hquiet := hl.quiet.served (l.entrants as)
        rwa [World.served, Loop.entrants, map_operation_numbered] at hquiet
      have hcalls : ∀ w v, World.writeTerms.guarantee w v → v.calls = w.calls := fun _ _ h => (World.eq_of_frame_eq h).1
      obtain ⟨⟨-, hstate, hr⟩, hquiescent⟩ := lone.quiescent hcalls hpost h hr
      exact ⟨hr, by rw [hstate]; rfl, hquiescent⟩
  · cases hgathered with
    | going h => exact absurd hrest h.not_atRest
    | ending lone h => exact h.atRest hrest

end Loop.Quiescent

end LanguageUsage
