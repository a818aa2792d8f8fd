import LanguageUsage.Proofs.Schedule.Course

/-!
# Those who wait for tasks

A process that waits for tasks goes on when the last of these has ended, and not before. This holds
whatever else goes on.

* `Process.Watches`: a process does nothing but wait for tasks;
* `Loop.finish_eq`: who goes on when a task has ended;
* `Loop.resume_watches`: what becomes of a process that waits for tasks;
* `Loop.Audience`: who else there is while some tasks are carried out;
* `Loop.Awaits`: a task has not ended before those for which it waits;
* `Loop.Awaits.moves`, `Loop.Awaits.enter`: this is kept in all courses.
-/

namespace LanguageUsage

variable {σ κ ρ α β : Type}

namespace Process

/-- A process does nothing but wait for some of the given tasks. -/
def Watches (tasks : List Nat) : Process σ κ ρ α → Prop
  | done _ => True
  | act _ _ => False
  | pause _ => False
  | errand _ _ _ => False
  | acquire _ _ => False
  | release _ _ => False
  | start _ _ => False
  | join ts _ next => ts ⊆ tasks ∧ ∀ rs, Watches tasks (next rs)

variable {tasks tasks' : List Nat} {p : Process σ κ ρ α}

theorem Watches.mono (h : p.Watches tasks) (hsub : tasks ⊆ tasks') : p.Watches tasks' := by
  induction p with
  | done a => trivial
  | join ts gathered next ih => exact ⟨List.Subset.trans h.1 hsub, fun rs => ih rs (h.2 rs)⟩
  | _ => exact h.elim

theorem Watches.bind {f : α → Process σ κ ρ β} (h : p.Watches tasks)
    (hf : ∀ a, (f a).Watches tasks) : (p.bind f).Watches tasks := by
  induction p with
  | done a => exact hf a
  | join ts gathered next ih => exact ⟨h.1, fun rs => ih rs (h.2 rs)⟩
  | _ => exact h.elim

end Process

/-- A task with its process. -/
def Ready.pair (r : Ready σ κ ρ) : Nat × Process σ κ ρ ρ := (r.task, r.process)

namespace Loop

variable {l : Loop σ κ ρ} {body : κ → Process σ κ ρ ρ} {task : Nat} {tasks : List Nat}

/-! ### Answers -/

/-- The loop with one more answer. -/
def answering (l : Loop σ κ ρ) (task : Nat) (r : ρ) : Loop σ κ ρ :=
  { l with answers := (task, r) :: l.answers }

theorem answer?_answering_self (r : ρ) : (l.answering task r).answer? task = some r := by
  simp [answering, answer?]

theorem answer?_answering_ne {n : Nat} (h : n ≠ task) (r : ρ) :
    (l.answering task r).answer? n = l.answer? n := by
  rw [answering, answer?, List.lookup_cons, beq_false_of_ne h]
  rfl

theorem isSome_answer?_answering {n : Nat} (h : (l.answer? n).isSome) (r : ρ) :
    ((l.answering task r).answer? n).isSome := by
  by_cases hn : n = task
  · rw [hn, answer?_answering_self]; rfl
  · rwa [answer?_answering_ne hn]

theorem isSome_answer?_of_answering {n : Nat} {r : ρ} (h : ((l.answering task r).answer? n).isSome) :
    n = task ∨ (l.answer? n).isSome := by
  by_cases hn : n = task
  · exact .inl hn
  · rw [answer?_answering_ne hn] at h
    exact .inr h

theorem isSome_answers? : (l.answers? tasks).isSome ↔ ∀ t ∈ tasks, (l.answer? t).isSome := by
  induction tasks with
  | nil => simp [answers?]
  | cons t ts ih =>
    rw [List.forall_mem_cons, ← ih, answers?, answers?, List.mapM_cons]
    cases l.answer? t <;> cases ts.mapM l.answer? <;> simp

theorem answers?_eq_some {ts : List Nat} {rs : List ρ} (h : ts.map l.answer? = rs.map some) :
    l.answers? ts = some rs := by
  induction ts generalizing rs with
  | nil =>
    obtain rfl : rs = [] := List.map_eq_nil_iff.1 h.symm
    rfl
  | cons t ts ih =>
    cases rs with
    | nil => cases h
    | cons r rs =>
      obtain ⟨ht, hts⟩ := List.cons.inj h
      have hrest := ih hts
      rw [answers?] at hrest ⊢
      rw [List.mapM_cons, ht, hrest]
      rfl

/-- How one who waits for tasks goes on, if all of these have ended. -/
def woken? (l : Loop σ κ ρ) (j : Joining σ κ ρ) : Option (Ready σ κ ρ) :=
  (l.answers? j.tasks).map fun rs => ⟨j.gathered.toNat, j.task, j.next rs⟩

theorem wake_eq (js : List (Joining σ κ ρ)) :
    l.wake js = { l with
      ready := l.ready ++ js.filterMap l.woken?
      joining := l.joining ++ js.filter fun j => (l.answers? j.tasks).isNone } := by
  induction js generalizing l with
  | nil => simp [wake]
  | cons j js ih =>
    cases hj : l.answers? j.tasks with
    | none =>
      let m : Loop σ κ ρ := { l with joining := l.joining ++ [j] }
      have hanswers : m.answers? = l.answers? := rfl
      have hsame : m.woken? = l.woken? := rfl
      have hwoken : l.woken? j = none := by rw [woken?, hj]; rfl
      have hnone : (l.answers? j.tasks).isNone := by rw [hj]; rfl
      have hfilter : (j :: js).filter (fun j => (l.answers? j.tasks).isNone) =
          j :: js.filter fun j => (l.answers? j.tasks).isNone := List.filter_cons_of_pos hnone
      have hm : m.wake js = _ := ih
      rw [hfilter, List.filterMap_cons_none hwoken, wake, hj]
      simp only [m, hanswers, hsame, List.append_assoc, List.singleton_append] at hm ⊢
      exact hm
    | some rs =>
      let r : Ready σ κ ρ := ⟨j.gathered.toNat, j.task, j.next rs⟩
      have hanswers : (l.enqueue r).answers? = l.answers? := rfl
      have hsame : (l.enqueue r).woken? = l.woken? := rfl
      have hwoken : l.woken? j = some r := by rw [woken?, hj]; rfl
      have hnone : ¬ (l.answers? j.tasks).isNone := by rw [hj]; exact Bool.false_ne_true
      have hfilter : (j :: js).filter (fun j => (l.answers? j.tasks).isNone) =
          js.filter fun j => (l.answers? j.tasks).isNone := List.filter_cons_of_neg hnone
      have hm : (l.enqueue r).wake js = _ := ih
      rw [hfilter, List.filterMap_cons_some hwoken, wake, hj]
      rw [hanswers, hsame] at hm
      simp only [enqueue, List.append_assoc, List.singleton_append] at hm ⊢
      exact hm

/-- When a task has ended, those who waited for it alone go on. -/
theorem finish_eq (r : ρ) :
    l.finish task r = { l.answering task r with
      ready := l.ready ++ l.joining.filterMap (l.answering task r).woken?
      joining := l.joining.filter fun j => ((l.answering task r).answers? j.tasks).isNone } := by
  rw [finish, wake_eq]
  rfl

/-- One who waits alone goes on when the last one has ended for which it waits. -/
theorem finish_of_joining {j : Joining σ κ ρ} (hj : l.joining = [j]) (r : ρ) :
    l.finish task r = match (l.answering task r).answers? j.tasks with
      | some rs => { l.answering task r with
          ready := l.ready ++ [⟨j.gathered.toNat, j.task, j.next rs⟩]
          joining := [] }
      | none => l.answering task r := by
  rw [finish_eq, hj]
  cases hanswers : (l.answering task r).answers? j.tasks with
  | some rs =>
    have hwoken : (l.answering task r).woken? j = some ⟨j.gathered.toNat, j.task, j.next rs⟩ := by
      rw [woken?, hanswers]
      rfl
    simp only [List.filterMap_cons, hwoken, List.filterMap_nil, List.filter_cons, hanswers, Option.isNone_some,
      Bool.false_eq_true, if_false, List.filter_nil]
  | none =>
    have hwoken : (l.answering task r).woken? j = none := by
      rw [woken?, hanswers]
      rfl
    simp only [List.filterMap_cons, hwoken, List.filterMap_nil, List.append_nil, List.filter_cons, hanswers,
      Option.isNone_none, if_true, List.filter_nil]
    rw [answering, ← hj]

@[simp] theorem state_finish (r : ρ) : (l.finish task r).state = l.state := by
  rw [finish_eq]
  rfl

@[simp] theorem started_finish (r : ρ) : (l.finish task r).started = l.started := by
  rw [finish_eq]
  rfl

@[simp] theorem blocked_finish (r : ρ) : (l.finish task r).blocked = l.blocked := by
  rw [finish_eq]
  rfl

theorem mem_ready_finish {r : ρ} {q : Ready σ κ ρ} (h : q ∈ (l.finish task r).ready) :
    q ∈ l.ready ∨ ∃ j ∈ l.joining, ((l.answering task r).answers? j.tasks).isSome ∧
      q.task = j.task ∧ ∃ rs, q.process = j.next rs := by
  rw [finish_eq] at h
  apply (List.mem_append.1 h).imp_right
  intro h
  obtain ⟨j, hj, hq⟩ := List.mem_filterMap.1 h
  obtain ⟨rs, hrs, rfl⟩ := Option.map_eq_some_iff.1 hq
  exact ⟨j, hj, by rw [hrs]; rfl, rfl, rs, rfl⟩

/-- A process that only waits for tasks ends, or waits until all of some tasks have ended. -/
theorem resume_watches (body : κ → Process σ κ ρ ρ) (task : Nat) (l : Loop σ κ ρ) {p : Process σ κ ρ ρ}
    (h : p.Watches tasks) :
    (∃ r, resume body task p l = l.finish task r) ∨
      ∃ j : Joining σ κ ρ, resume body task p l = { l with joining := l.joining ++ [j] } ∧
        j.task = task ∧ l.answers? j.tasks = none ∧ j.tasks ⊆ tasks ∧
          ∀ rs, (j.next rs).Watches tasks := by
  induction p with
  | done r => exact .inl ⟨r, rfl⟩
  | join ts gathered next ih =>
    cases hts : l.answers? ts with
    | none =>
      refine .inr ⟨⟨task, ts, gathered, next⟩, ?_, rfl, hts, h.1, h.2⟩
      rw [resume, hts]
    | some rs =>
      have hresume : resume body task (.join ts gathered next) l = resume body task (next rs) l := by
        rw [resume, hts]
      rw [hresume]
      exact ih rs (h.2 rs)
  | _ => exact h.elim

/-! ### All who wait for some tasks -/

/-- All tasks of a loop that have not ended are among the given ones or watch some of these; those in
`busy` are just going on. -/
structure Audience (l : Loop σ κ ρ) (tasks : List Nat) (watchers : List (Nat × Process σ κ ρ ρ))
    (busy : List Nat) : Prop where
  ready : ∀ v ∈ watchers, v.1 < l.started ∧ v.1 ∉ tasks ∧ v.2.Watches tasks
  joining : ∀ j ∈ l.joining, j.task < l.started ∧ j.task ∉ tasks ∧ l.answers? j.tasks = none ∧
    j.tasks ⊆ tasks ∧ ∀ rs, (j.next rs).Watches tasks
  known : ∀ n < l.started, n ∈ busy ∨ (l.answer? n).isSome ∨ n ∈ tasks ∨
    (∃ v ∈ watchers, v.1 = n) ∨ ∃ j ∈ l.joining, j.task = n

namespace Audience

variable {watchers watchers' : List (Nat × Process σ κ ρ ρ)} {busy : List Nat}

theorem of_mem (h : l.Audience tasks watchers busy) (hmem : ∀ v, v ∈ watchers' ↔ v ∈ watchers) :
    l.Audience tasks watchers' busy where
  ready v hv := h.ready v ((hmem v).1 hv)
  joining := h.joining
  known n hn := by
    simpa only [hmem] using h.known n hn

/-- Somebody is going on who may have to be passed over. -/
theorem mono_busy (h : l.Audience tasks watchers []) : l.Audience tasks watchers busy where
  ready := h.ready
  joining := h.joining
  known n hn := by
    rcases h.known n hn with hb | hk
    · cases hb
    · exact .inr hk

/-- One of those who are ready goes on. -/
theorem take {v : Nat × Process σ κ ρ ρ} (h : l.Audience tasks (v :: watchers) []) :
    l.Audience tasks watchers [v.1] where
  ready u hu := h.ready u (List.mem_cons_of_mem _ hu)
  joining := h.joining
  known n hn := by
    rcases h.known n hn with hb | ha | ht | ⟨u, hu, rfl⟩ | hj
    · cases hb
    · exact .inr (.inl ha)
    · exact .inr (.inr (.inl ht))
    · rcases List.mem_cons.1 hu with rfl | hu
      · exact .inl List.mem_cons_self
      · exact .inr (.inr (.inr (.inl ⟨u, hu, rfl⟩)))
    · exact .inr (.inr (.inr (.inr hj)))

/-- One who goes on waits for tasks that have not all ended. -/
theorem wait {j : Joining σ κ ρ} (h : l.Audience tasks watchers [j.task]) (hlt : j.task < l.started)
    (hj : j.task ∉ tasks) (hnone : l.answers? j.tasks = none) (hsub : j.tasks ⊆ tasks)
    (hnext : ∀ rs, (j.next rs).Watches tasks) :
    Audience { l with joining := l.joining ++ [j] } tasks watchers [] where
  ready := h.ready
  joining i hi := by
    rcases List.mem_append.1 hi with hi | hi
    · exact h.joining i hi
    · rw [List.mem_singleton.1 hi]
      exact ⟨hlt, hj, hnone, hsub, hnext⟩
  known n hn := by
    rcases h.known n hn with hb | ha | ht | hw | ⟨i, hi, hin⟩
    · exact .inr (.inr (.inr (.inr ⟨j, by simp, (List.mem_singleton.1 hb).symm⟩)))
    · exact .inr (.inl ha)
    · exact .inr (.inr (.inl ht))
    · exact .inr (.inr (.inr (.inl hw)))
    · exact .inr (.inr (.inr (.inr ⟨i, List.mem_append_left _ hi, hin⟩)))

/-- One who goes on ends. -/
theorem finish (h : l.Audience tasks watchers [task]) (r : ρ) :
    (l.finish task r).Audience tasks
      (watchers ++ (l.joining.filterMap (l.answering task r).woken?).map Ready.pair) [] := by
  rw [finish_eq]
  constructor
  · intro v hv
    rcases List.mem_append.1 hv with hv | hv
    · exact h.ready v hv
    · -- one who waited goes on in the same way
      obtain ⟨q, hq, rfl⟩ := List.mem_map.1 hv
      obtain ⟨j, hj, hqj⟩ := List.mem_filterMap.1 hq
      obtain ⟨rs, -, rfl⟩ := Option.map_eq_some_iff.1 hqj
      obtain ⟨hlt, hnot, -, -, hnext⟩ := h.joining j hj
      exact ⟨hlt, hnot, hnext rs⟩
  · intro j hj
    obtain ⟨hj, hnone⟩ := List.mem_filter.1 hj
    obtain ⟨hlt, hnot, -, hsub, hnext⟩ := h.joining j hj
    exact ⟨hlt, hnot, Option.isNone_iff_eq_none.1 hnone, hsub, hnext⟩
  · intro n hn
    rcases h.known n hn with hb | ha | ht | ⟨v, hv, hvn⟩ | ⟨j, hj, hjn⟩
    · rw [List.mem_singleton.1 hb]
      exact .inr (.inl (Option.isSome_iff_exists.2 ⟨r, answer?_answering_self r⟩))
    · exact .inr (.inl (isSome_answer?_answering ha r))
    · exact .inr (.inr (.inl ht))
    · exact .inr (.inr (.inr (.inl ⟨v, List.mem_append_left _ hv, hvn⟩)))
    · -- one who waited goes on if the answer was the last one missing, and else still waits
      cases hrs : (l.answering task r).answers? j.tasks with
      | none => exact .inr (.inr (.inr (.inr ⟨j, List.mem_filter.2 ⟨hj, by rw [hrs]; rfl⟩, hjn⟩)))
      | some rs =>
        have hwoken : (l.answering task r).woken? j = some ⟨j.gathered.toNat, j.task, j.next rs⟩ := by
          rw [woken?, hrs]
          rfl
        have hmem := List.mem_map_of_mem (f := Ready.pair) (List.mem_filterMap.2 ⟨j, hj, hwoken⟩)
        exact .inr (.inr (.inr (.inl ⟨_, List.mem_append_right _ hmem, hjn⟩)))

/-- A task is started that can be waited for. -/
theorem start (h : l.Audience tasks watchers busy) :
    Audience { l with started := l.started + 1 } (tasks ++ [l.started]) watchers busy := by
  have hsub : tasks ⊆ tasks ++ [l.started] := List.subset_append_left _ _
  -- the new task is none of those before
  have hnot : ∀ n < l.started, n ∉ tasks → n ∉ tasks ++ [l.started] := by
    intro n hn hnt hmem
    rcases List.mem_append.1 hmem with hmem | hmem
    · exact hnt hmem
    · rw [List.mem_singleton.1 hmem] at hn
      exact Nat.lt_irrefl _ hn
  constructor
  · intro v hv
    obtain ⟨hlt, hv', hwatch⟩ := h.ready v hv
    exact ⟨Nat.lt_succ_of_lt hlt, hnot _ hlt hv', hwatch.mono hsub⟩
  · intro j hj
    obtain ⟨hlt, hj', hnone, hts, hnext⟩ := h.joining j hj
    exact ⟨Nat.lt_succ_of_lt hlt, hnot _ hlt hj', hnone, List.Subset.trans hts hsub, fun rs => (hnext rs).mono hsub⟩
  · intro n hn
    rcases Nat.lt_succ_iff_lt_or_eq.1 hn with hn | rfl
    · exact (h.known n hn).imp_right (Or.imp_right (Or.imp_left fun ht => hsub ht))
    · exact .inr (.inr (.inl (by simp)))

/-- A task begins that is not to be waited for. -/
theorem enter (h : l.Audience tasks watchers []) :
    Audience { l with started := l.started + 1 } tasks watchers [l.started] where
  ready v hv := (h.ready v hv).imp_left Nat.lt_succ_of_lt
  joining j hj := (h.joining j hj).imp_left Nat.lt_succ_of_lt
  known n hn := by
    rcases Nat.lt_succ_iff_lt_or_eq.1 hn with hn | rfl
    · exact (h.mono_busy).known n hn
    · exact .inl List.mem_cons_self

end Audience

/-! ### Tasks do not end before those for which they wait -/

/-- A task that waits for others, and that nobody carries on in the meantime. -/
structure Waiting (l : Loop σ κ ρ) (task : Nat) (tasks : List Nat) : Prop where
  unanswered : l.answer? task = none
  started : task < l.started
  ready : ∀ r ∈ l.ready, r.task ≠ task
  errands : ∀ e ∈ l.errands, e.task ≠ task
  carried : ∀ r ∈ l.carried, r.task ≠ task
  blocked : ∀ b ∈ l.blocked, b.task ≠ task
  joining : ∀ j ∈ l.joining, j.task = task → j.tasks = tasks

/-- All of some tasks have ended, or else a task still waits for them. -/
def Awaits (l : Loop σ κ ρ) (task : Nat) (tasks : List Nat) : Prop :=
  (∀ t ∈ tasks, (l.answer? t).isSome) ∨ l.Waiting task tasks

theorem Awaits.isSome (h : l.Awaits task tasks) (hr : (l.answer? task).isSome) :
    ∀ t ∈ tasks, (l.answer? t).isSome := by
  apply h.resolve_right
  intro hwait
  rw [hwait.unanswered] at hr
  cases hr

namespace Waiting

theorem enqueue (h : l.Waiting task tasks) {r : Ready σ κ ρ} (hr : r.task ≠ task) :
    (l.enqueue r).Waiting task tasks :=
  { h with ready := by simpa [Loop.enqueue, or_imp, forall_and] using ⟨h.ready, hr⟩ }

theorem free (h : l.Waiting task tasks) (lock : Lock) : (l.free lock).Waiting task tasks := by
  rcases l.free_cases lock with hne | ⟨as, b, bs, happ, hlock, has⟩
  · rw [free_of_forall_ne hne]
    exact { h with }
  · have hmem : ∀ c ∈ as ++ bs, c ∈ l.blocked := by
      intro c hc
      rw [happ]
      simp at hc ⊢
      tauto
    rw [free_of_eq_append happ hlock has]
    exact { h.enqueue (r := ⟨0, b.task, b.process⟩) (h.blocked b (by simp [happ])) with
      blocked := fun c hc => h.blocked c (hmem c hc) }

theorem begin (h : l.Waiting task tasks) (p : Process σ κ ρ ρ) : (l.begin p).Waiting task tasks :=
  { h.enqueue (r := ⟨0, l.started, p⟩) (Nat.ne_of_gt h.started) with
    started := Nat.lt_succ_of_lt h.started }

theorem finish (h : l.Waiting task tasks) {n : Nat} (hn : task ≠ n) (r : ρ) :
    (l.finish n r).Awaits task tasks := by
  by_cases hall : ∀ t ∈ tasks, ((l.answering n r).answer? t).isSome
  · refine .inl ?_
    rw [finish_eq]
    exact hall
  · refine .inr ?_
    have hready : ∀ q ∈ (l.finish n r).ready, q.task ≠ task := by
      intro q hq hqt
      rcases mem_ready_finish hq with hq | ⟨j, hj, hsome, htask, -⟩
      · exact h.ready q hq hqt
      · rw [h.joining j hj (htask ▸ hqt)] at hsome
        exact hall (isSome_answers?.1 hsome)
    rw [finish_eq] at hready ⊢
    exact { h with
      unanswered := (answer?_answering_ne hn r).trans h.unanswered
      ready := hready
      joining := fun j hj => h.joining j ((List.mem_filter.1 hj).1) }

end Waiting

theorem isSome_answer?_free {n : Nat} (h : (l.answer? n).isSome) (lock : Lock) :
    ((l.free lock).answer? n).isSome := by
  unfold free
  split <;> exact h

/-- An answer stays. -/
theorem isSome_answer?_resume {n : Nat} (p : Process σ κ ρ ρ) (h : (l.answer? n).isSome) :
    ((resume body task p l).answer? n).isSome := by
  induction p generalizing l with
  | done r =>
    rw [resume, finish_eq]
    exact isSome_answer?_answering h r
  | act change next ih => exact ih _ h
  | pause next => exact h
  | errand brief change next => exact h
  | acquire lock next ih =>
    unfold resume
    split
    · exact h
    · exact ih h
  | release lock next ih => exact ih (isSome_answer?_free h lock)
  | start k next ih => exact ih _ h
  | join ts gathered next ih =>
    unfold resume
    split
    · exact ih _ h
    · exact h

/-- Others go on, and the task waits. -/
theorem Awaits.resume {n : Nat} (p : Process σ κ ρ ρ) (h : l.Awaits task tasks) (hn : n ≠ task) :
    (Loop.resume body n p l).Awaits task tasks := by
  rcases h with h | h
  · exact .inl fun t ht => isSome_answer?_resume p (h t ht)
  · induction p generalizing l with
    | done r => exact h.finish hn.symm r
    | act change next ih => exact ih _ { h with }
    | pause next => exact .inr (h.enqueue hn)
    | errand brief change next =>
      refine .inr { h with errands := ?_ }
      simpa [Loop.resume, or_imp, forall_and] using ⟨h.errands, hn⟩
    | acquire lock next ih =>
      unfold Loop.resume
      split
      · exact .inr { h with blocked := by simpa [or_imp, forall_and] using ⟨h.blocked, hn⟩ }
      · exact ih { h with }
    | release lock next ih => exact ih (h.free lock)
    | start k next ih => exact ih _ (h.begin (body k))
    | join ts gathered next ih =>
      unfold Loop.resume
      split
      · exact ih _ h
      · refine .inr { h with joining := ?_ }
        intro j hj hjt
        rcases List.mem_append.1 hj with hj | hj
        · exact h.joining j hj hjt
        · rw [List.mem_singleton.1 hj] at hjt
          exact absurd hjt hn

end Loop

namespace Course

variable {body : κ → Process σ κ ρ ρ} {c d : Course σ κ ρ} {task : Nat} {tasks : List Nat}

theorem Goes.awaits (hg : Goes body c d) (h : c.loop.Awaits task tasks) :
    d.loop.Awaits task tasks := by
  cases hg with
  | @resume l _ as bs r ready _ =>
    rcases h with h | h
    · exact .inl fun t ht => Loop.isSome_answer?_resume r.process (h t ht)
    · have hr : r.task ≠ task := h.ready r (by rw [ready]; simp)
      refine Loop.Awaits.resume r.process (.inr { h with ready := fun q hq => ?_ }) hr
      exact h.ready q (by rw [ready]; simp at hq ⊢; tauto)
  | @carryOut l _ e es carried errands =>
    apply h.imp id
    intro h
    have herrands : ∀ f ∈ e :: es, f.task ≠ task := errands ▸ h.errands
    exact { h with
      errands := fun f hf => herrands f (List.mem_cons_of_mem _ hf)
      carried := by
        rintro r ⟨⟩
        exact herrands e List.mem_cons_self }
  | @report l _ r carried =>
    have hr : l.report = ({ l with carried := none } : Loop σ κ ρ).enqueue r := by
      rw [Loop.report, carried]
    rw [hr]
    apply h.imp id
    intro h
    have hnone : ({ l with carried := none } : Loop σ κ ρ).Waiting task tasks :=
      { h with carried := by rintro r ⟨⟩ }
    exact hnone.enqueue (h.carried r carried)

theorem Passes.awaits (hp : Passes c d) (h : c.loop.Awaits task tasks) :
    d.loop.Awaits task tasks := by
  cases hp with
  | @later l _ as bs r ready delay =>
    refine h.imp id fun h => { h with ready := ?_ }
    have hready : ∀ q ∈ as ++ r :: bs, q.task ≠ task := ready ▸ h.ready
    intro q hq
    rcases List.mem_append.1 hq with hq | hq
    · exact hready q (by simp at hq ⊢; tauto)
    · rw [List.mem_singleton.1 hq]
      exact hready r (by simp)

/-- **Nobody goes on too early.** Whatever goes on, a task that waits for others does not end before
them. -/
theorem Moves.awaits (hm : Moves body c d) (h : c.loop.Awaits task tasks) :
    d.loop.Awaits task tasks :=
  hm.elim (·.awaits h) (·.awaits h)

/-- A process that begins is a task of its own. -/
theorem awaits_enter (p : Process σ κ ρ ρ) (h : c.loop.Awaits task tasks) :
    (c.enter body p).loop.Awaits task tasks := by
  rcases h with h | h
  · exact .inl fun t ht => Loop.isSome_answer?_resume p (h t ht)
  · exact Loop.Awaits.resume p (.inr { h with started := Nat.lt_succ_of_lt h.started })
      (Nat.ne_of_gt h.started)

end Course

end LanguageUsage
