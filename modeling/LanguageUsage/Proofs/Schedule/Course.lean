import LanguageUsage.Schedule.Loop
import Mathlib.Logic.Relation
import Mathlib.Order.WellFounded
import Mathlib.Tactic.Common

/-!
# Courses of a loop

A loop settles who goes on next. Here that is left open: anyone who is ready may go on, and the worker
may carry out its next errand, or send word of the last one, at any moment. Only the tasks that have
not begun yet begin in the order in which they were started.

* `Course`: a loop, and the tasks in it that have begun;
* `Course.Goes`: somebody goes on; `Course.Passes`: somebody who is ready is passed over;
* `Course.AtRest`: nobody can go on, so there is nothing left to do;
* `Course.enter`: a process begins at once;
* `Course.Orderly`, `Course.moves_turn`, `Course.moves_run`: what a loop does is one of its courses.
-/

namespace LanguageUsage

/-- A loop, and the tasks in it that have begun. -/
structure Course (σ κ ρ : Type) where
  loop : Loop σ κ ρ
  begun : List Nat := []

namespace Course

variable {σ κ ρ : Type}

/-- Somebody goes on. A task that has not begun has to wait for those that were started before it. -/
inductive Goes (body : κ → Process σ κ ρ ρ) : Course σ κ ρ → Course σ κ ρ → Prop
  | resume {l : Loop σ κ ρ} {begun : List Nat} {as bs : List (Ready σ κ ρ)} {r : Ready σ κ ρ}
      (ready : l.ready = as ++ r :: bs)
      (order : r.task ∈ begun ∨ ∀ q ∈ as ++ bs, q.task ∈ begun ∨ r.task ≤ q.task) :
      Goes body ⟨l, begun⟩
        ⟨Loop.resume body r.task r.process { l with ready := as ++ bs }, r.task :: begun⟩
  | carryOut {l : Loop σ κ ρ} {begun : List Nat} {e : Errand σ κ ρ} {es : List (Errand σ κ ρ)}
      (carried : l.carried = none) (errands : l.errands = e :: es) :
      Goes body ⟨l, begun⟩ ⟨{ l.carryOut e with errands := es }, begun⟩
  | report {l : Loop σ κ ρ} {begun : List Nat} {r : Ready σ κ ρ} (carried : l.carried = some r) :
      Goes body ⟨l, begun⟩ ⟨l.report, begun⟩

/-- Somebody who is ready is passed over. -/
inductive Passes : Course σ κ ρ → Course σ κ ρ → Prop
  | later {l : Loop σ κ ρ} {begun : List Nat} {as bs : List (Ready σ κ ρ)} {r : Ready σ κ ρ}
      (ready : l.ready = as ++ r :: bs) (delay : Nat) :
      Passes ⟨l, begun⟩ ⟨{ l with ready := as ++ bs ++ [{ r with delay := delay }] }, begun⟩

/-- Nobody can go on. -/
def AtRest (body : κ → Process σ κ ρ ρ) (c : Course σ κ ρ) : Prop := ∀ d, ¬ Goes body c d

section AtRest

variable {body : κ → Process σ κ ρ ρ} {c : Course σ κ ρ}

/-- Of those who are ready, one that has begun can go on, or else the first to begin. -/
theorem AtRest.ready (h : c.AtRest body) : c.loop.ready = [] := by
  obtain ⟨l, begun⟩ := c
  by_contra hne
  by_cases hbegun : ∃ r ∈ l.ready, r.task ∈ begun
  · obtain ⟨r, hr, hmem⟩ := hbegun
    obtain ⟨as, bs, hl⟩ := List.append_of_mem hr
    exact h _ (.resume hl (.inl hmem))
  · obtain ⟨r, hr, hmin⟩ := (measure fun r : Ready σ κ ρ => r.task).wf.has_min {r | r ∈ l.ready}
      (List.exists_mem_of_ne_nil _ hne)
    obtain ⟨as, bs, hl⟩ := List.append_of_mem hr
    refine h _ (.resume hl (.inr fun q hq => .inr (Nat.not_lt.1 (hmin q ?_))))
    show q ∈ l.ready
    rw [hl]
    simp at hq ⊢
    tauto

theorem AtRest.carried (h : c.AtRest body) : c.loop.carried = none := by
  cases hc : c.loop.carried with
  | none => rfl
  | some r => exact absurd (.report hc) (h _)

theorem AtRest.errands (h : c.AtRest body) : c.loop.errands = [] := by
  cases he : c.loop.errands with
  | nil => rfl
  | cons e es => exact absurd (.carryOut h.carried he) (h _)

end AtRest

/-- One goes on or is passed over. -/
def Moves (body : κ → Process σ κ ρ ρ) (c d : Course σ κ ρ) : Prop := Goes body c d ∨ Passes c d

/-- A process begins at once, as a new task. -/
def enter (body : κ → Process σ κ ρ ρ) (p : Process σ κ ρ ρ) (c : Course σ κ ρ) : Course σ κ ρ :=
  ⟨Loop.resume body c.loop.started p { c.loop with started := c.loop.started + 1 },
    c.loop.started :: c.begun⟩

/-! ### The turns of a loop -/

/-- Those that have not begun are ready in the order of their start, and were never passed over. -/
structure Orderly (c : Course σ κ ρ) : Prop where
  ready_lt : ∀ r ∈ c.loop.ready, r.task < c.loop.started
  delayed : ∀ r ∈ c.loop.ready, r.delay ≠ 0 → r.task ∈ c.begun
  sorted : c.loop.ready.Pairwise fun r q => r.task ∈ c.begun ∨ q.task ∈ c.begun ∨ r.task < q.task
  errands : ∀ e ∈ c.loop.errands, e.task ∈ c.begun ∧ e.task < c.loop.started
  carried : ∀ r ∈ c.loop.carried, r.task ∈ c.begun ∧ r.task < c.loop.started
  blocked : ∀ b ∈ c.loop.blocked, b.task ∈ c.begun ∧ b.task < c.loop.started
  joining : ∀ j ∈ c.loop.joining, j.task ∈ c.begun ∧ j.task < c.loop.started

namespace Orderly

variable {l : Loop σ κ ρ} {begun : List Nat}

theorem enqueue (h : Orderly ⟨l, begun⟩) {r : Ready σ κ ρ} (hr : r.task ∈ begun)
    (hlt : r.task < l.started) : Orderly ⟨l.enqueue r, begun⟩ where
  ready_lt q hq := by
    rcases List.mem_append.1 hq with hq | hq
    · exact h.ready_lt q hq
    · rw [List.mem_singleton.1 hq]; exact hlt
  delayed q hq hd := by
    rcases List.mem_append.1 hq with hq | hq
    · exact h.delayed q hq hd
    · rw [List.mem_singleton.1 hq]; exact hr
  sorted := by
    refine List.pairwise_append.2 ⟨h.sorted, List.pairwise_singleton _ _, fun a _ b hb => ?_⟩
    rw [List.mem_singleton.1 hb]
    exact .inr (.inl hr)
  errands := h.errands
  carried := h.carried
  blocked := h.blocked
  joining := h.joining

theorem begin (h : Orderly ⟨l, begun⟩) (p : Process σ κ ρ ρ) : Orderly ⟨l.begin p, begun⟩ where
  ready_lt q hq := by
    rcases List.mem_append.1 hq with hq | hq
    · exact Nat.lt_succ_of_lt (h.ready_lt q hq)
    · rw [List.mem_singleton.1 hq]; exact Nat.lt_succ_self _
  delayed q hq hd := by
    rcases List.mem_append.1 hq with hq | hq
    · exact h.delayed q hq hd
    · rw [List.mem_singleton.1 hq] at hd; exact absurd rfl hd
  sorted := by
    refine List.pairwise_append.2 ⟨h.sorted, List.pairwise_singleton _ _, fun a ha b hb => ?_⟩
    rw [List.mem_singleton.1 hb]
    exact .inr (.inr (h.ready_lt a ha))
  errands e he := (h.errands e he).imp_right Nat.lt_succ_of_lt
  carried r hr := (h.carried r hr).imp_right Nat.lt_succ_of_lt
  blocked b hb := (h.blocked b hb).imp_right Nat.lt_succ_of_lt
  joining j hj := (h.joining j hj).imp_right Nat.lt_succ_of_lt

theorem free (h : Orderly ⟨l, begun⟩) (lock : Lock) : Orderly ⟨l.free lock, begun⟩ := by
  rcases l.free_cases lock with hne | ⟨as, b, bs, happ, hlock, has⟩
  · rw [Loop.free_of_forall_ne hne]
    exact { h with }
  · have hb := h.blocked b (by rw [happ]; simp)
    have h' := h.enqueue (r := ⟨0, b.task, b.process⟩) hb.1 hb.2
    rw [Loop.free_of_eq_append happ hlock has]
    exact { h' with blocked := fun c hc => h.blocked c (by rw [happ]; simp at hc ⊢; tauto) }

theorem wake {js : List (Joining σ κ ρ)} (h : Orderly ⟨l, begun⟩)
    (hjs : ∀ j ∈ js, j.task ∈ begun ∧ j.task < l.started) : Orderly ⟨l.wake js, begun⟩ := by
  induction js generalizing l with
  | nil => exact h
  | cons j js ih =>
    have hj := hjs j List.mem_cons_self
    have hjs' : ∀ i ∈ js, i.task ∈ begun ∧ i.task < l.started :=
      fun i hi => hjs i (List.mem_cons_of_mem _ hi)
    simp only [Loop.wake]
    split
    · exact ih (h.enqueue hj.1 hj.2) hjs'
    · refine ih { h with joining := fun i hi => ?_ } hjs'
      rcases List.mem_append.1 hi with hi | hi
      · exact h.joining i hi
      · rw [List.mem_singleton.1 hi]; exact hj

theorem finish (h : Orderly ⟨l, begun⟩) (task : Nat) (r : ρ) : Orderly ⟨l.finish task r, begun⟩ := by
  -- those who wait are put back one by one
  have h' : Orderly ⟨{ l with answers := (task, r) :: l.answers, joining := [] }, begun⟩ :=
    { h with joining := fun j hj => by cases hj }
  exact h'.wake h.joining

/-- What a task does that has begun keeps the order of those that have not. -/
theorem resume {body : κ → Process σ κ ρ ρ} {task : Nat} (p : Process σ κ ρ ρ)
    (h : Orderly ⟨l, begun⟩) (ht : task ∈ begun) (hlt : task < l.started) :
    Orderly ⟨Loop.resume body task p l, begun⟩ := by
  induction p generalizing l with
  | done r => exact h.finish task r
  | act change next ih => exact ih _ { h with } hlt
  | pause next => exact h.enqueue ht hlt
  | errand brief change next =>
    refine { h with errands := fun e he => ?_ }
    rcases List.mem_append.1 he with he | he
    · exact h.errands e he
    · rw [List.mem_singleton.1 he]; exact ⟨ht, hlt⟩
  | acquire lock next ih =>
    simp only [Loop.resume]
    split
    · refine { h with blocked := fun b hb => ?_ }
      rcases List.mem_append.1 hb with hb | hb
      · exact h.blocked b hb
      · rw [List.mem_singleton.1 hb]; exact ⟨ht, hlt⟩
    · exact ih { h with } hlt
  | release lock next ih =>
    refine ih (h.free lock) ?_
    unfold Loop.free
    split <;> exact hlt
  | start k next ih => exact ih _ (h.begin (body k)) (Nat.lt_succ_of_lt hlt)
  | join tasks gathered next ih =>
    simp only [Loop.resume]
    split
    · exact ih _ h hlt
    · refine { h with joining := fun j hj => ?_ }
      rcases List.mem_append.1 hj with hj | hj
      · exact h.joining j hj
      · rw [List.mem_singleton.1 hj]; exact ⟨ht, hlt⟩

theorem enter {body : κ → Process σ κ ρ ρ} (p : Process σ κ ρ ρ) (h : Orderly ⟨l, begun⟩) :
    Orderly (Course.enter body p ⟨l, begun⟩) := by
  have hbegun : ∀ n, n ∈ begun ∧ n < l.started → n ∈ l.started :: begun ∧ n < l.started + 1 :=
    fun n hn => ⟨List.mem_cons_of_mem _ hn.1, Nat.lt_succ_of_lt hn.2⟩
  have h' : Orderly ⟨{ l with started := l.started + 1 }, l.started :: begun⟩ :=
    { ready_lt := fun r hr => Nat.lt_succ_of_lt (h.ready_lt r hr)
      delayed := fun r hr hd => List.mem_cons_of_mem _ (h.delayed r hr hd)
      sorted := h.sorted.imp fun ho =>
        ho.imp (List.mem_cons_of_mem _) (Or.imp_left (List.mem_cons_of_mem _))
      errands := fun e he => hbegun _ (h.errands e he)
      carried := fun r hr => hbegun _ (h.carried r hr)
      blocked := fun b hb => hbegun _ (h.blocked b hb)
      joining := fun j hj => hbegun _ (h.joining j hj) }
  exact h'.resume p List.mem_cons_self (Nat.lt_succ_self _)

/-- What is at the end of a list may have been somewhere else in it before. -/
theorem pass (h : Orderly ⟨l, begun⟩) {as bs : List (Ready σ κ ρ)} {r : Ready σ κ ρ} {delay : Nat}
    (hl : l.ready = as ++ r :: bs) (hr : r.task ∈ begun) :
    Orderly ⟨{ l with ready := as ++ bs ++ [{ r with delay := delay }] }, begun⟩ := by
  have hsub : (as ++ bs).Sublist l.ready := by
    rw [hl]; exact (List.Sublist.refl as).append (List.sublist_cons_self r bs)
  have hlt : r.task < l.started := h.ready_lt r (by rw [hl]; simp)
  have h' : Orderly ⟨{ l with ready := as ++ bs }, begun⟩ :=
    { h with
      ready_lt := fun q hq => h.ready_lt q (hsub.mem hq)
      delayed := fun q hq => h.delayed q (hsub.mem hq)
      sorted := h.sorted.sublist hsub }
  exact h'.enqueue (r := { r with delay := delay }) hr hlt

end Orderly

section Turns

variable (body : κ → Process σ κ ρ ρ) {l : Loop σ κ ρ} {begun : List Nat}

theorem Orderly.carryOut (h : Orderly ⟨l, begun⟩) {e : Errand σ κ ρ} {es : List (Errand σ κ ρ)}
    (he : l.errands = e :: es) : Orderly ⟨{ l.carryOut e with errands := es }, begun⟩ where
  ready_lt := h.ready_lt
  delayed := h.delayed
  sorted := h.sorted
  errands f hf := h.errands f (he ▸ List.mem_cons_of_mem _ hf)
  carried r hr := by
    cases Option.mem_some.1 hr
    exact h.errands e (he ▸ List.mem_cons_self)
  blocked := h.blocked
  joining := h.joining

theorem Orderly.report (h : Orderly ⟨l, begun⟩) : Orderly ⟨l.report, begun⟩ := by
  unfold Loop.report
  split
  · next r hr =>
    have h' : Orderly ⟨{ l with carried := none }, begun⟩ := { h with carried := by rintro r ⟨⟩ }
    exact h'.enqueue (h.carried r hr).1 (h.carried r hr).2
  · exact h

theorem moves_report : Relation.ReflTransGen (Moves body) ⟨l, begun⟩ ⟨l.report, begun⟩ := by
  cases hc : l.carried with
  | none => rw [Loop.report, hc]
  | some r => exact .single (.inl (.report hc))

/-- An errand of which word is sent at once. -/
theorem moves_carryOut_report {e : Errand σ κ ρ} {es : List (Errand σ κ ρ)} (hc : l.carried = none)
    (he : l.errands = e :: es) :
    Relation.ReflTransGen (Moves body) ⟨l, begun⟩
      ⟨{ (l.carryOut e).report with errands := es }, begun⟩ :=
  .head (.inl (.carryOut hc he)) (.single (.inl (.report rfl)))

theorem moves_carryOutBrief {es : List (Errand σ κ ρ)} (hc : l.carried = none)
    (h : Orderly ⟨{ l with errands := es }, begun⟩) :
    Relation.ReflTransGen (Moves body) ⟨{ l with errands := es }, begun⟩ ⟨l.carryOutBrief es, begun⟩ ∧
      Orderly ⟨l.carryOutBrief es, begun⟩ := by
  induction es generalizing l with
  | nil => exact ⟨.refl, h⟩
  | cons e es ih =>
    unfold Loop.carryOutBrief
    split
    · obtain ⟨moves, orderly⟩ := ih (l := (l.carryOut e).report) rfl (h.carryOut rfl).report
      exact ⟨(moves_carryOut_report body (l := { l with errands := e :: es }) hc rfl).trans moves,
        orderly⟩
    · exact ⟨.single (.inl (.carryOut hc rfl)), h.carryOut rfl⟩

theorem moves_work (h : Orderly ⟨l, begun⟩) :
    Relation.ReflTransGen (Moves body) ⟨l, begun⟩ ⟨l.work, begun⟩ ∧ Orderly ⟨l.work, begun⟩ := by
  cases hc : l.carried with
  | some r =>
    have hw : l.work = l.report.carryOutBrief l.errands := by simp [Loop.work, hc]
    have hr : l.report = { l.report with errands := l.errands } := by simp [Loop.report, hc, Loop.enqueue]
    have hn : l.report.carried = none := by simp [Loop.report, hc, Loop.enqueue]
    obtain ⟨moves, orderly⟩ := moves_carryOutBrief body hn (hr ▸ h.report)
    rw [hw]
    exact ⟨(moves_report body).trans (hr ▸ moves), orderly⟩
  | none =>
    cases he : l.errands with
    | nil =>
      have hw : l.work = l := by
        cases l; simp_all [Loop.work, Loop.report, Loop.carryOutBrief]
      rw [hw]
      exact ⟨.refl, h⟩
    | cons e es =>
      have hw : l.work = (l.carryOut e).report.carryOutBrief es := by simp [Loop.work, hc, he]
      obtain ⟨moves, orderly⟩ :=
        moves_carryOutBrief body (l := (l.carryOut e).report) rfl (h.carryOut he).report
      rw [hw]
      exact ⟨(moves_carryOut_report body hc he).trans moves, orderly⟩

/-- **A turn of a loop is a part of a course.** -/
theorem moves_turn (h : Orderly ⟨l, begun⟩) :
    ∃ begun', Relation.ReflTransGen (Moves body) ⟨l, begun⟩ ⟨l.turn body, begun'⟩ ∧
      Orderly ⟨l.turn body, begun'⟩ := by
  unfold Loop.turn
  split
  · exact ⟨begun, moves_work body h⟩
  · next task p rs hl =>
    have hl : l.ready = [] ++ ⟨0, task, p⟩ :: rs := hl
    have hlt : task < l.started := h.ready_lt ⟨0, task, p⟩ (by rw [hl]; simp)
    have hsorted := List.pairwise_cons.1 (hl ▸ h.sorted)
    refine ⟨task :: begun, .single (.inl (.resume hl ?_)), ?_⟩
    · by_cases ht : task ∈ begun
      · exact .inl ht
      · exact .inr fun q hq => ((hsorted.1 q hq).resolve_left ht).imp_right Nat.le_of_lt
    · refine Orderly.resume p ?_ List.mem_cons_self hlt
      exact {
        ready_lt := fun q hq => h.ready_lt q (hl ▸ List.mem_cons_of_mem _ hq)
        delayed := fun q hq hd =>
          List.mem_cons_of_mem _ (h.delayed q (hl ▸ List.mem_cons_of_mem _ hq) hd)
        sorted := hsorted.2.imp fun ho =>
          ho.imp (List.mem_cons_of_mem _) (Or.imp_left (List.mem_cons_of_mem _))
        errands := fun e he => (h.errands e he).imp_left (List.mem_cons_of_mem _)
        carried := fun r hr => (h.carried r hr).imp_left (List.mem_cons_of_mem _)
        blocked := fun b hb => (h.blocked b hb).imp_left (List.mem_cons_of_mem _)
        joining := fun j hj => (h.joining j hj).imp_left (List.mem_cons_of_mem _) }
  · next n task p rs hl =>
    have hl : l.ready = [] ++ ⟨n + 1, task, p⟩ :: rs := hl
    have ht : task ∈ begun := h.delayed ⟨n + 1, task, p⟩ (by rw [hl]; simp) (Nat.succ_ne_zero n)
    exact ⟨begun, .single (.inr (.later hl n)), h.pass hl ht⟩

/-- **What a loop does is one of its courses.** -/
theorem moves_run {task n : Nat} (h : Orderly ⟨l, begun⟩) :
    ∃ begun', Relation.ReflTransGen (Moves body) ⟨l, begun⟩ ⟨l.run body task n, begun'⟩ ∧
      Orderly ⟨l.run body task n, begun'⟩ := by
  induction n generalizing l begun with
  | zero => exact ⟨begun, .refl, h⟩
  | succ n ih =>
    unfold Loop.run
    split
    · exact ⟨begun, .refl, h⟩
    · obtain ⟨begun₁, moves₁, h₁⟩ := moves_turn body h
      obtain ⟨begun₂, moves₂, h₂⟩ := ih h₁
      exact ⟨begun₂, moves₁.trans moves₂, h₂⟩

end Turns

end Course

end LanguageUsage
