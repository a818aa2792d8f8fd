import LanguageUsage.Proofs.Schedule.Leads
import LanguageUsage.Proofs.Schedule.Watch

/-!
# Processes that are pending

Whether one who is not kept waiting by others is ready, or the worker is on an errand for it, or has been, makes no
difference to what it does next. Told apart from the others by this alone, a process that leads to an end can be
followed until it gets there.

* `Loop.pending`: all who go on by themselves, with what they do next;
* `Loop.pending_take`, `Loop.pending_carryOut`, `Loop.pending_report`: what becomes of them;
* `Loop.Hosts`: one of them leads to its end; `Loop.Beside`: what is not changed meanwhile;
* `Loop.Hosts.of_stops`, `Loop.Hosts.resume_cases`, `Loop.Hosts.carryOut`: what one turn does to it.
-/

namespace LanguageUsage

variable {σ κ ρ α : Type}

namespace Process

/-- A process that lets others go on first. -/
def Suspended : Process σ κ ρ α → Prop
  | pause _ => True
  | errand _ _ _ => True
  | _ => False

end Process

namespace Loop

variable {l m : Loop σ κ ρ}

/-- All who go on without waiting for one another, each with what it does next. One for whom the worker has carried
out an errand is as good as ready. -/
def pending (l : Loop σ κ ρ) : List (Nat × Process σ κ ρ ρ) :=
  l.ready.map (fun r => (r.task, .pause r.process)) ++
    (l.errands.map (fun e => (e.task, .errand e.brief e.change e.next)) ++
      l.carried.toList.map fun r => (r.task, .pause r.process))

theorem pending_ready_append (rs : List (Ready σ κ ρ)) :
    (pending { l with ready := l.ready ++ rs }).Perm
      (rs.map (fun r => (r.task, .pause r.process)) ++ l.pending) := by
  rw [pending, pending, List.map_append]
  exact (List.perm_append_comm.append_right _).trans (.of_eq (List.append_assoc _ _ _))

theorem pending_enqueue (r : Ready σ κ ρ) : (l.enqueue r).pending.Perm ((r.task, .pause r.process) :: l.pending) :=
  pending_ready_append [r]

theorem pending_send (e : Errand σ κ ρ) : (pending { l with errands := l.errands ++ [e] }).Perm
    ((e.task, .errand e.brief e.change e.next) :: l.pending) := by
  simp only [pending, List.map_append, List.map_singleton, List.append_assoc, List.singleton_append]
  rw [← List.append_assoc, ← List.append_assoc]
  exact List.perm_middle

/-- One who is ready is taken out. -/
theorem pending_take {as bs : List (Ready σ κ ρ)} {r : Ready σ κ ρ} (hl : l.ready = as ++ r :: bs) :
    l.pending.Perm ((r.task, .pause r.process) :: pending { l with ready := as ++ bs }) := by
  rw [pending, hl]
  exact (List.perm_middle.map _).append_right _

/-- The worker carries out an errand. -/
theorem pending_carryOut {e : Errand σ κ ρ} {es : List (Errand σ κ ρ)} (hc : l.carried = none)
    (he : l.errands = e :: es) :
    l.pending.Perm ((e.task, .errand e.brief e.change e.next) :: pending { l with errands := es }) ∧
      (pending { l.carryOut e with errands := es }).Perm
        ((e.task, .pause (e.next l.state)) :: pending { l with errands := es }) := by
  simp only [pending, carryOut, hc, he, List.map_cons, Option.toList_some, Option.toList_none, List.map_nil,
    List.append_nil]
  refine ⟨List.perm_middle, ?_⟩
  rw [← List.append_assoc]
  exact List.perm_append_singleton _ _

/-- Word of an errand makes no difference. -/
theorem pending_report (l : Loop σ κ ρ) : l.report.pending.Perm l.pending := by
  cases hc : l.carried with
  | none => rw [report, hc]
  | some r =>
    have hl : l.report = ({ l with carried := none } : Loop σ κ ρ).enqueue r := by rw [report, hc]
    rw [hl]
    refine (pending_enqueue r).trans ?_
    simp only [pending, hc, Option.toList_some, Option.toList_none, List.map_nil, List.map_singleton, List.append_nil]
    rw [← List.append_assoc]
    exact (List.perm_append_singleton _ _).symm

/-- It makes no difference to be passed over. -/
theorem pending_pass {as bs : List (Ready σ κ ρ)} {r : Ready σ κ ρ} (hl : l.ready = as ++ r :: bs) (delay : Nat) :
    (pending { l with ready := as ++ bs ++ [{ r with delay := delay }] }).Perm l.pending :=
  (pending_enqueue (l := { l with ready := as ++ bs }) { r with delay := delay }).trans (pending_take hl).symm

/-! ### One among others -/

/-- What is not changed by those who are pending, as long as they do not end: the number of tasks, the answers, and
those who wait for one another. -/
structure Beside (l m : Loop σ κ ρ) : Prop where
  started : m.started = l.started
  answers : m.answers = l.answers
  blocked : m.blocked = l.blocked
  joining : m.joining = l.joining

theorem Beside.trans {n : Loop σ κ ρ} (h : l.Beside m) (h' : m.Beside n) : l.Beside n :=
  ⟨h'.started.trans h.started, h'.answers.trans h.answers, h'.blocked.trans h.blocked, h'.joining.trans h.joining⟩

theorem beside_report (l : Loop σ κ ρ) : l.Beside l.report := by
  unfold report
  split <;> exact ⟨rfl, rfl, rfl, rfl⟩

/-- The process of a task that goes on with `fin` leads to its end. It holds some locks beside `base`, and beside it
`others` are pending. -/
inductive Hosts (T : Terms σ) (post : List Lock → σ → α → Prop) (fin : α → Process σ κ ρ ρ) (task : Nat)
    (base : List Lock) (others : List (Nat × Process σ κ ρ ρ)) (l : Loop σ κ ρ) : Prop
  | intro {locks : List Lock} {q : Process σ κ ρ α} (suspended : q.Suspended) (leads : q.Leads T post locks l.state)
      (held : l.held = locks ++ base) (pending : l.pending.Perm ((task, q.bind fin) :: others))

namespace Hosts

variable {T : Terms σ} {post : List Lock → σ → α → Prop} {fin : α → Process σ κ ρ ρ} {task : Nat} {base : List Lock}
  {others : List (Nat × Process σ κ ρ ρ)} {body : κ → Process σ κ ρ ρ}

/-- A process that went on for once is pending again, or has ended. -/
theorem of_stops (hothers : l.pending.Perm others) (h : Stops T post body task fin base l m) :
    (Hosts T post fin task base others m ∧ T.guarantee l.state m.state ∧ l.ready <+: m.ready ∧ l.Beside m) ∨
      ∃ held s a, T.guarantee l.state s ∧ post held s a ∧
        m = resume body task (fin a) { l with state := s, held := held ++ base } := by
  cases h with
  | @ended held s a kept h => exact .inr ⟨held, s, a, kept, h, rfl⟩
  | @paused held s q kept h =>
    have hq : (Process.pause q).Suspended := trivial
    refine .inl ⟨.intro hq h rfl ?_, kept, List.prefix_append _ _, rfl, rfl, rfl, rfl⟩
    exact (pending_enqueue _).trans (hothers.cons _)
  | @sent held s brief change next kept h =>
    have hq : (Process.errand brief change next).Suspended := trivial
    refine .inl ⟨.intro hq h rfl ?_, kept, List.prefix_refl _, rfl, rfl, rfl, rfl⟩
    exact (pending_send _).trans (hothers.cons _)

/-- Who goes on is this process, or one of the others. -/
theorem resume_cases {as bs : List (Ready σ κ ρ)} {r : Ready σ κ ρ} (h : Hosts T post fin task base others l)
    (hl : l.ready = as ++ r :: bs) :
    (∃ (locks : List Lock) (q : Process σ κ ρ α), r.task = task ∧ r.process = q.bind fin ∧
        q.Leads T post locks l.state ∧ l.held = locks ++ base ∧ (pending { l with ready := as ++ bs }).Perm others) ∨
      ∃ xs ys, others = xs ++ (r.task, .pause r.process) :: ys ∧
        Hosts T post fin task base (xs ++ ys) { l with ready := as ++ bs } := by
  obtain @⟨locks, q, hq, hleads, hheld, hpending⟩ := h
  have hperm := (pending_take hl).symm.trans hpending
  rcases List.mem_cons.1 (hperm.subset List.mem_cons_self) with heq | hmem
  · rw [heq] at hperm
    obtain ⟨htask, hprocess⟩ := Prod.mk.inj heq
    cases q with
    | pause q =>
      refine .inl ⟨locks, q, htask, Process.pause.inj hprocess, hleads l.state (T.rely_refl _), hheld, hperm.cons_inv⟩
    | errand brief change next => cases hprocess
    | _ => exact hq.elim
  · obtain ⟨xs, ys, rfl⟩ := List.append_of_mem hmem
    refine .inr ⟨xs, ys, rfl, .intro hq hleads hheld ?_⟩
    have hmiddle : ((task, q.bind fin) :: (xs ++ (r.task, .pause r.process) :: ys)).Perm
        ((r.task, .pause r.process) :: (task, q.bind fin) :: (xs ++ ys)) :=
      (List.perm_middle.cons _).trans (List.Perm.swap _ _ _)
    exact (hperm.trans hmiddle).cons_inv

/-- If the others are ready, the worker is on an errand for this process. -/
theorem carryOut {e : Errand σ κ ρ} {es : List (Errand σ κ ρ)} (h : Hosts T post fin task base others l)
    (hothers : ∀ v ∈ others, ∃ p, v.2 = .pause p) (hc : l.carried = none) (he : l.errands = e :: es) :
    Hosts T post fin task base others { l.carryOut e with errands := es } ∧
      T.guarantee l.state (e.change l.state) := by
  obtain @⟨locks, q, hq, hleads, hheld, hpending⟩ := h
  obtain ⟨hbefore, hafter⟩ := pending_carryOut hc he
  have hperm := hbefore.symm.trans hpending
  rcases List.mem_cons.1 (hperm.subset List.mem_cons_self) with heq | hmem
  · rw [heq] at hperm
    obtain ⟨htask, hprocess⟩ := Prod.mk.inj heq
    cases q with
    | errand brief change next =>
      obtain ⟨rfl, rfl⟩ : brief = e.brief ∧ change = e.change := by
        injection hprocess with hbrief hchange
        exact ⟨hbrief.symm, hchange.symm⟩
      have hnext : e.next = fun s => (next s).bind fin := by
        injection hprocess
      obtain ⟨hkept, hgoes⟩ := hleads l.state (T.rely_refl _)
      refine ⟨.intro (q := .pause (next l.state)) trivial hgoes hheld ?_, hkept⟩
      rw [hnext, htask] at hafter
      exact hafter.trans (hperm.cons_inv.cons _)
    | pause q => cases hprocess
    | _ => exact hq.elim
  · obtain ⟨p, hp⟩ := hothers _ hmem
    cases hp

/-- Word of an errand makes no difference. -/
theorem report (h : Hosts T post fin task base others l) : Hosts T post fin task base others l.report := by
  obtain @⟨locks, q, hq, hleads, hheld, hpending⟩ := h
  have hsame : l.report.state = l.state ∧ l.report.held = l.held := by
    unfold Loop.report
    split <;> exact ⟨rfl, rfl⟩
  exact .intro hq (hsame.1 ▸ hleads) (hsame.2.trans hheld) ((pending_report l).trans hpending)

theorem pass {as bs : List (Ready σ κ ρ)} {r : Ready σ κ ρ} (h : Hosts T post fin task base others l)
    (hl : l.ready = as ++ r :: bs) (delay : Nat) :
    Hosts T post fin task base others { l with ready := as ++ bs ++ [{ r with delay := delay }] } := by
  obtain @⟨locks, q, hq, hleads, hheld, hpending⟩ := h
  exact .intro hq hleads hheld ((pending_pass hl delay).trans hpending)

end Hosts

end Loop

end LanguageUsage
