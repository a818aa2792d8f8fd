import LanguageUsage.Proofs.Schedule.Alone
import LanguageUsage.Proofs.Schedule.Pending

/-!
# One process in any course

Where nothing else is going on, a process that leads to an end gets there in every course: nobody else can go on.

* `Loop.Single`: the process is on its way, or it has ended and nothing is going on;
* `Loop.single_enter`, `Loop.Single.moves`: this is so from the beginning, and stays so;
* `Loop.Single.answered`, `Loop.Single.atRest`: when it has ended.
-/

namespace LanguageUsage

variable {σ κ ρ : Type}

namespace Loop

variable {T : Terms σ} {post : List Lock → σ → ρ → Prop} {body : κ → Process σ κ ρ ρ} {task : Nat}
  {l m : Loop σ κ ρ} {p : Process σ κ ρ ρ}

/-- In the loop `l`, in which nothing else is going on, the process of a task leads to its end, and it is on its way
or has ended. -/
inductive Single (T : Terms σ) (post : List Lock → σ → ρ → Prop) (task : Nat) (l m : Loop σ κ ρ) : Prop
  | going (hosts : Hosts T post .done task [] [] m) (kept : T.guarantee l.state m.state) (beside : l.Beside m)
  | ended (r : ρ) (h : post m.held m.state r) (kept : T.guarantee l.state m.state) (idle : m.Idle)
      (started : m.started = l.started) (answers : m.answers = (task, r) :: l.answers)

theorem Idle.pending (hl : l.Idle) : l.pending = [] := by
  rw [Loop.pending, hl.ready, hl.errands, hl.carried]
  rfl

/-- Where nothing is pending and nobody waits, nothing is going on. -/
theorem idle_of_pending (hpending : l.pending = []) (hblocked : l.blocked = []) (hjoining : l.joining = []) :
    l.Idle := by
  simp only [Loop.pending, List.append_eq_nil_iff, List.map_eq_nil_iff, Option.toList_eq_nil_iff] at hpending
  exact ⟨hpending.1, hpending.2.1, hpending.2.2, hblocked, hjoining⟩

/-- One who goes on while nothing else is pending is on its way again, or has ended. -/
theorem single_resume (hm : m.Idle) (hbeside : l.Beside m) (hkept : T.guarantee l.state m.state)
    (hp : p.Leads T post m.held m.state) : Single T post task l (resume body task p m) := by
  have hstops : Stops T post body task .done [] m (resume body task (p.bind .done) m) := by
    refine stops_resume p (fun _ _ => List.not_mem_nil) ?_ (List.append_nil _).symm hp
    rw [hm.blocked]
    exact List.forall_mem_nil _
  rw [Process.bind_done] at hstops
  rcases Hosts.of_stops (.of_eq hm.pending) hstops with ⟨hosts, hstep, -, hrest⟩ | ⟨held, s, r, hstep, hpost, hend⟩
  · exact .going hosts (T.guarantee_trans hkept hstep) (hbeside.trans hrest)
  · rw [hend, resume, Idle.finish hm.update, List.append_nil]
    refine .ended r hpost (T.guarantee_trans hkept hstep) ⟨hm.ready, hm.errands, hm.carried, hm.blocked, hm.joining⟩
      hbeside.started ?_
    rw [← hbeside.answers]

/-- A process begins where nothing is going on. -/
theorem single_enter (begun : List Nat) (hl : l.Idle) (hheld : l.held = []) (hp : p.Leads T post [] l.state) :
    Single T post l.started { l with started := l.started + 1 } (Course.enter body p ⟨l, begun⟩).loop :=
  single_resume hl.update ⟨rfl, rfl, rfl, rfl⟩ (T.guarantee_refl _) (hheld ▸ hp)

namespace Single

/-- Whoever goes on, it is this process. -/
theorem moves {c d : Course σ κ ρ} (hblocked : l.blocked = []) (hjoining : l.joining = [])
    (h : Single T post task l c.loop) (hm : Course.Moves body c d) : Single T post task l d.loop := by
  cases h with
  | ended r h kept idle started answers =>
    -- nothing is going on any more
    rcases hm with hgo | hpass
    · cases hgo with
      | resume ready order => exact absurd (ready.symm.trans idle.ready) (by simp)
      | carryOut carried errands => exact absurd (errands.symm.trans idle.errands) (by simp)
      | report carried => exact absurd (carried.symm.trans idle.carried) (by simp)
    · cases hpass with
      | later ready delay => exact absurd (ready.symm.trans idle.ready) (by simp)
  | going hosts kept beside =>
    rcases hm with hgo | hpass
    · cases hgo with
      | resume ready order =>
        rcases hosts.resume_cases ready with ⟨locks, q, htask, hprocess, hleads, hheld, hpending⟩ | ⟨xs, ys, hxs, -⟩
        · rw [List.append_nil] at hheld
          rw [hprocess, htask, Process.bind_done]
          refine single_resume (idle_of_pending hpending.eq_nil ?_ ?_) ⟨beside.started, beside.answers,
            beside.blocked, beside.joining⟩ kept (by rw [← hheld] at hleads; exact hleads)
          · exact beside.blocked.trans hblocked
          · exact beside.joining.trans hjoining
        · simp at hxs
      | carryOut carried errands =>
        obtain ⟨hosts', hstep⟩ := hosts.carryOut (List.forall_mem_nil _) carried errands
        exact .going hosts' (T.guarantee_trans kept hstep)
          ⟨beside.started, beside.answers, beside.blocked, beside.joining⟩
      | @report m _ r carried =>
        have hstate : m.report.state = m.state := by rw [Loop.report, carried]; rfl
        exact .going hosts.report (by rw [hstate]; exact kept) (beside.trans (beside_report m))
    · cases hpass with
      | later ready delay =>
        exact .going (hosts.pass ready delay) kept
          ⟨beside.started, beside.answers, beside.blocked, beside.joining⟩

theorem moves_all {c d : Course σ κ ρ} (hblocked : l.blocked = []) (hjoining : l.joining = [])
    (h : Single T post task l c.loop) (hm : Relation.ReflTransGen (Course.Moves body) c d) :
    Single T post task l d.loop := by
  induction hm with
  | refl => exact h
  | tail _ hm ih => exact ih.moves hblocked hjoining hm

/-- It has ended if it has an answer. -/
theorem answered (h : Single T post task l m) (hnew : l.answer? task = none) {r : ρ} (hr : m.answer? task = some r) :
    post m.held m.state r ∧ T.guarantee l.state m.state ∧ m.Idle ∧ m.started = l.started ∧
      m.answers = (task, r) :: l.answers := by
  cases h with
  | going hosts kept beside =>
    rw [answer?, beside.answers, ← answer?, hnew] at hr
    cases hr
  | ended r' h kept idle started answers =>
    obtain rfl : r' = r := by
      rw [answer?, answers, List.lookup_cons_self] at hr
      exact Option.some.inj hr
    exact ⟨h, kept, idle, started, answers⟩

/-- It has ended if nobody can go on. -/
theorem atRest {c : Course σ κ ρ} (h : Single T post task l c.loop) (hrest : c.AtRest body) :
    (c.loop.answer? task).isSome := by
  cases h with
  | going hosts kept beside =>
    obtain ⟨hq, hleads, hheld, hpending⟩ := hosts
    rw [Loop.pending, hrest.ready, hrest.errands, hrest.carried] at hpending
    cases hpending.symm.eq_nil
  | ended r h kept idle started answers =>
    rw [answer?, answers, List.lookup_cons_self]
    rfl

end Single

end Loop

end LanguageUsage
