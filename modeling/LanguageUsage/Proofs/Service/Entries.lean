import LanguageUsage.Proofs.Service.Entrants

/-!
# Answers to requests that were started together

Requests that were started together end in any order. What they are answered is what they are answered one after
another.

* `Entrants`: where the requests stand;
* `Loop.entrants`, `Loop.gatherer`: the requests with their tasks, and the one that waits for them;
* `Entries`: the answers so far;
* `Entries.lineUp`, `Entries.turnDown`, `Entries.serve`: one begins, is refused, or has made its change;
* `Entries.answers`: the answers when all have ended.
-/

namespace LanguageUsage

/-- Where requests stand that were started together, apart from those to which the store objects. -/
structure Entrants where
  /-- those that have made their change -/
  past : List Entrant
  /-- the one that makes its change, and those that wait until they may -/
  line : List Entrant
  /-- all that have not begun -/
  fresh : List Entrant

namespace Loop

/-- The requests that are started in a loop by a task that has just begun. -/
def entrants (l : Loop World Task Completion) (as : List Addition) : List Entrant := numbered (l.started + 1) as

/-- The task that has started them and waits for them. -/
def gatherer (l : Loop World Task Completion) (as : List Addition) : Joining World Task Completion :=
  ⟨l.started, (l.entrants as).map Entrant.task, true, fun rs => .done (.ok (.replies rs))⟩

end Loop

/-- The requests `as` were started in the loop `l₀`. Those that have ended are answered as they are one after another,
and to the others there is no answer yet. -/
structure Entries (l₀ : Loop World Task Completion) (as : List Addition) (y : Entrants)
    (l : Loop World Task Completion) : Prop where
  started : l.started = l₀.started + 1 + as.length
  earlier : ∀ n < l₀.started, (l.answer? n).isSome
  unanswered : l.answer? l₀.started = none
  answered : ∀ n, (l.answer? n).isSome → n < l.started
  passing : y.past ++ (y.line ++ y.fresh.filter (Entrant.passes l₀.state.store)) =
    (l₀.entrants as).filter (Entrant.passes l₀.state.store)
  suffix : y.fresh <:+ l₀.entrants as
  ended : y.past.map (fun x => l.answer? x.task) =
    (l₀.state.store.performAll (y.past.map Entrant.operation)).2.map some
  refused : ∀ x ∈ l₀.entrants as, x ∉ y.fresh → ∀ f, l₀.state.store.objection? x.addition = some f →
    l.answer? x.task = some (.error f)
  unended : ∀ x ∈ y.line ++ y.fresh, l.answer? x.task = none

section entrants

variable {l₀ : Loop World Task Completion} {as : List Addition} {x z : Entrant}

theorem eq_of_task_eq (hx : x ∈ l₀.entrants as) (hz : z ∈ l₀.entrants as) (h : x.task = z.task) : x = z := by
  have hnodup : ((l₀.entrants as).map Entrant.task).Nodup := by
    rw [Loop.entrants, map_task_numbered]
    exact List.nodup_range'
  exact List.inj_on_of_nodup_map hnodup hx hz h

theorem nodup_entrants (l₀ : Loop World Task Completion) (as : List Addition) : (l₀.entrants as).Nodup :=
  (pairwise_numbered _ as).imp fun h heq => Nat.ne_of_lt h (congrArg Entrant.task heq)

end entrants

namespace Entries

variable {l₀ l : Loop World Task Completion} {as : List Addition} {y : Entrants} {past line fresh : List Entrant}
  {x z : Entrant} {r : Completion} {f : Fault}

/-- Only the answers matter. -/
theorem congr {m : Loop World Task Completion} (h : Entries l₀ as y l) (hanswers : m.answers = l.answers)
    (hstarted : m.started = l.started) : Entries l₀ as y m := by
  have hsame : m.answer? = l.answer? := by
    funext n
    rw [Loop.answer?, hanswers]
    rfl
  obtain ⟨started, earlier, unanswered, answered, passing, suffix, ended, refused, unended⟩ := h
  rw [← hsame] at earlier unanswered answered ended refused unended
  exact ⟨hstarted.trans started, earlier, unanswered, hstarted ▸ answered, passing, suffix, ended, refused, unended⟩

theorem mem_of_mem_past (h : Entries l₀ as y l) (hx : x ∈ y.past ++ y.line) :
    x ∈ l₀.entrants as ∧ x.passes l₀.state.store = true := by
  refine List.mem_filter.1 (h.passing ▸ ?_)
  rw [← List.append_assoc]
  exact List.mem_append_left _ hx

/-- Those in line wait for a database, and have passed the check. -/
theorem exists_checked {n : Nat} (h : Entries l₀ as y l) (hlink : l₀.state.link? = .ok n) (hx : x ∈ y.line) :
    ∃ i, x.addition.checked = .ok i := by
  obtain ⟨d, hs, -⟩ := World.store_of_link?_ok hlink
  have hpass := (h.mem_of_mem_past (List.mem_append_right _ hx)).2
  rw [Entrant.passes, hs, Store.objection?] at hpass
  cases hchecked : x.addition.checked with
  | ok i => exact ⟨i, rfl⟩
  | error f => simp [hchecked] at hpass

/-- One more answer to a request makes no difference to the others. -/
theorem answer?_answering (hx : x ∈ l₀.entrants as) (hz : z ∈ l₀.entrants as) (hne : z ≠ x) :
    (l.answering x.task r).answer? z.task = l.answer? z.task :=
  Loop.answer?_answering_ne (fun htask => hne (eq_of_task_eq hz hx htask)) r

/-- What one more answer leaves as it is. -/
theorem answering (h : Entries l₀ as y l) (hx : x ∈ l₀.entrants as) (r : Completion) :
    (∀ n < l₀.started, ((l.answering x.task r).answer? n).isSome) ∧
      (l.answering x.task r).answer? l₀.started = none ∧
      ∀ n, ((l.answering x.task r).answer? n).isSome → n < l.started := by
  have htask := task_of_mem_numbered hx
  refine ⟨fun n hn => Loop.isSome_answer?_answering (h.earlier n hn) r, ?_, fun n hn => ?_⟩
  · rw [Loop.answer?_answering_ne (by omega)]
    exact h.unanswered
  · rcases Loop.isSome_answer?_of_answering hn with rfl | hn
    · rw [h.started]
      exact htask.2
    · exact h.answered n hn

/-- The first of those that have not begun gets in line. -/
theorem lineUp (h : Entries l₀ as ⟨past, line, x :: fresh⟩ l) (hx : x.passes l₀.state.store = true) :
    Entries l₀ as ⟨past, line ++ [x], fresh⟩ l :=
  { h with
    passing := by
      have hpassing := h.passing
      rw [List.filter_cons_of_pos hx] at hpassing
      simpa using hpassing
    suffix := (List.suffix_cons x fresh).trans h.suffix
    refused := fun z hz hnot f hf => by
      refine h.refused z hz (fun hmem => ?_) f hf
      rcases List.mem_cons.1 hmem with rfl | hmem
      · simp [Entrant.passes, hf] at hx
      · exact hnot hmem
    unended := fun z hz => h.unended z (by simpa [or_assoc] using hz) }

/-- The first of those that have not begun is refused. -/
theorem turnDown (h : Entries l₀ as ⟨past, line, x :: fresh⟩ l) (hf : l₀.state.store.objection? x.addition = some f) :
    Entries l₀ as ⟨past, line, fresh⟩ (l.answering x.task (.error f)) := by
  have hnot : ¬ x.passes l₀.state.store = true := by simp [Entrant.passes, hf]
  have hx : x ∈ l₀.entrants as := h.suffix.subset List.mem_cons_self
  have hfresh : fresh <:+ l₀.entrants as := (List.suffix_cons x fresh).trans h.suffix
  have hne : ∀ z ∈ past ++ line, z ≠ x := fun z hz hzx => hnot (hzx ▸ (h.mem_of_mem_past hz).2)
  obtain ⟨hearlier, hunanswered, hanswered⟩ := h.answering hx (.error f)
  refine ⟨h.started, hearlier, hunanswered, hanswered, ?_, hfresh, ?_, fun z hz hzf f' hf' => ?_, fun z hz => ?_⟩
  · have hpassing := h.passing
    rwa [List.filter_cons_of_neg hnot] at hpassing
  · rw [← h.ended]
    apply List.map_congr_left
    intro z hz
    exact answer?_answering hx (h.mem_of_mem_past (List.mem_append_left _ hz)).1 (hne z (List.mem_append_left _ hz))
  · by_cases hzx : z = x
    · obtain rfl : f' = f := by rw [hzx, hf] at hf'; exact (Option.some.inj hf').symm
      rw [hzx]
      exact Loop.answer?_answering_self _
    · rw [answer?_answering hx hz hzx]
      exact h.refused z hz (by simpa [hzx] using hzf) f' hf'
  · rcases List.mem_append.1 hz with hz | hz
    · rw [answer?_answering hx (h.mem_of_mem_past (List.mem_append_right _ hz)).1 (hne z (List.mem_append_right _ hz))]
      exact h.unended z (List.mem_append_left _ hz)
    · have hnodup : (x :: fresh).Nodup := h.suffix.sublist.nodup (nodup_entrants l₀ as)
      rw [answer?_answering hx (hfresh.subset hz) fun hzx => (List.nodup_cons.1 hnodup).1 (hzx ▸ hz)]
      exact h.unended z (List.mem_append_right _ (List.mem_cons_of_mem _ hz))

/-- The first in line has made its change. -/
theorem serve (h : Entries l₀ as ⟨past, x :: line, fresh⟩ l) :
    Entries l₀ as ⟨past ++ [x], line, fresh⟩
      (l.answering x.task ((l₀.state.served past).store.perform x.operation).2) := by
  obtain ⟨hx, hpass⟩ := h.mem_of_mem_past (x := x) (List.mem_append_right _ List.mem_cons_self)
  have hpassing : past ++ x :: (line ++ fresh.filter (Entrant.passes l₀.state.store)) =
      (l₀.entrants as).filter (Entrant.passes l₀.state.store) := h.passing
  -- it stands in one place only
  have hnot : x ∉ past ++ (line ++ fresh.filter (Entrant.passes l₀.state.store)) := by
    have hnodup := (nodup_entrants l₀ as).filter (Entrant.passes l₀.state.store)
    rw [← hpassing] at hnodup
    exact (List.nodup_middle.1 hnodup).notMem
  obtain ⟨hearlier, hunanswered, hanswered⟩ := h.answering hx ((l₀.state.served past).store.perform x.operation).2
  refine ⟨h.started, hearlier, hunanswered, hanswered, by simpa using hpassing, h.suffix, ?_,
    fun z hz hzf f hf => ?_, fun z hz => ?_⟩
  · rw [List.map_append, List.map_append, List.map_singleton, List.map_singleton, Store.performAll_concat,
      List.map_append, ← h.ended]
    congr 1
    · apply List.map_congr_left
      intro z hz
      refine answer?_answering hx (h.mem_of_mem_past (List.mem_append_left _ hz)).1 fun hzx => hnot ?_
      exact hzx ▸ List.mem_append_left _ hz
    · rw [List.map_singleton]
      exact congrArg (fun a => [a]) (Loop.answer?_answering_self _)
  · rw [answer?_answering hx hz fun hzx => by simp [Entrant.passes, ← hzx, hf] at hpass]
    exact h.refused z hz hzf f hf
  · rcases List.mem_append.1 hz with hz | hz
    · rw [answer?_answering hx (h.mem_of_mem_past (List.mem_append_right _ (List.mem_cons_of_mem _ hz))).1 fun hzx =>
        hnot (hzx ▸ List.mem_append_right _ (List.mem_append_left _ hz))]
      exact h.unended z (List.mem_append_left _ (List.mem_cons_of_mem _ hz))
    · rw [answer?_answering hx (h.suffix.subset hz) fun hzx => hnot (List.mem_append_right _ (List.mem_append_right _
        (List.mem_filter.2 ⟨hzx ▸ hz, hpass⟩)))]
      exact h.unended z (List.mem_append_right _ hz)

/-- When all have ended, they are answered as they are one after another. -/
theorem answers (h : Entries l₀ as ⟨past, [], []⟩ l) :
    (l₀.entrants as).map (fun x => l.answer? x.task) =
        (l₀.state.store.performAll (as.map Addition.operation)).2.map some ∧
      l₀.state.served past = l₀.state.withStore (l₀.state.store.performAll (as.map Addition.operation)).1 := by
  have hpast : past = (l₀.entrants as).filter (Entrant.passes l₀.state.store) := by simpa using h.passing
  obtain ⟨hanswers, hstore⟩ := Store.performAll_of_objections (hpast ▸ h.ended) fun x hx f hf =>
    h.refused x hx List.not_mem_nil f hf
  rw [Loop.entrants, map_operation_numbered] at hanswers hstore
  refine ⟨hanswers, ?_⟩
  rw [World.served, hpast, Loop.entrants, hstore]

/-- Then the one that waits for them goes on with these answers. -/
theorem answers?_of_ended (h : Entries l₀ as ⟨past, [], []⟩ l) : l.answers? (l₀.gatherer as).tasks =
    some (l₀.state.store.performAll (as.map Addition.operation)).2 := by
  refine Loop.answers?_eq_some ?_
  rw [Loop.gatherer, List.map_map]
  exact h.answers.1

/-- As long as some have not ended, it waits. -/
theorem answers?_of_unended (h : Entries l₀ as y l) (hne : y.line ++ y.fresh ≠ []) :
    l.answers? (l₀.gatherer as).tasks = none := by
  obtain ⟨z, hz⟩ := List.exists_mem_of_ne_nil _ hne
  have hmem : z ∈ l₀.entrants as := by
    rcases List.mem_append.1 hz with hz | hz
    · exact (h.mem_of_mem_past (List.mem_append_right _ hz)).1
    · exact h.suffix.subset hz
  rw [← Option.not_isSome_iff_eq_none, Loop.isSome_answers?]
  intro hall
  have hsome := hall z.task (List.mem_map_of_mem hmem)
  rw [h.unended z hz] at hsome
  cases hsome

end Entries

end LanguageUsage
