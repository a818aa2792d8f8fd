import LanguageUsage.Proofs.Schedule.Leads

/-!
# A process alone

Where nothing else is going on, a process that leads to an end gets there, and the number of turns that it
takes is bounded by the number of times that it waits.

* `Process.Within`: a process waits a bounded number of times;
* `Loop.Idle`: nothing is going on;
* `Loop.run_alone`, `Loop.perform_alone`: the process has ended after three turns for each time that it waits.
-/

namespace LanguageUsage

variable {σ κ ρ α β : Type}

namespace Process

/-- A process waits at most `n` times, and neither starts tasks nor waits for them. -/
def Within : Process σ κ ρ α → Nat → Prop
  | done _, _ => True
  | act _ next, n => ∀ s, Within (next s) n
  | pause next, n => ∃ m, n = m + 1 ∧ Within next m
  | errand _ _ next, n => ∃ m, n = m + 1 ∧ ∀ s, Within (next s) m
  | acquire _ next, n => Within next n
  | release _ next, n => Within next n
  | start _ _, _ => False
  | join _ _ _, _ => False

theorem Within.mono {p : Process σ κ ρ α} {m n : Nat} (hp : p.Within m) (hn : m ≤ n) : p.Within n := by
  induction p generalizing m n with
  | done a => trivial
  | act change next ih => exact fun s => ih s (hp s) hn
  | pause next ih =>
    obtain ⟨k, rfl, hnext⟩ := hp
    exact ⟨n - 1, by omega, ih hnext (by omega)⟩
  | errand brief change next ih =>
    obtain ⟨k, rfl, hnext⟩ := hp
    exact ⟨n - 1, by omega, fun s => ih s (hnext s) (by omega)⟩
  | acquire lock next ih => exact ih hp hn
  | release lock next ih => exact ih hp hn
  | start task next => exact hp
  | join tasks gathered next => exact hp

theorem Within.bind {p : Process σ κ ρ α} {f : α → Process σ κ ρ β} {m n : Nat} (hp : p.Within m)
    (hf : ∀ a, (f a).Within n) : (p.bind f).Within (n + m) := by
  induction p generalizing m with
  | done a => exact (hf a).mono (by omega)
  | act change next ih => exact fun s => ih s (hp s)
  | pause next ih =>
    obtain ⟨k, rfl, hnext⟩ := hp
    exact ⟨n + k, rfl, ih hnext⟩
  | errand brief change next ih =>
    obtain ⟨k, rfl, hnext⟩ := hp
    exact ⟨n + k, rfl, fun s => ih s (hnext s)⟩
  | acquire lock next ih => exact ih hp
  | release lock next ih => exact ih hp
  | start task next => exact hp
  | join tasks gathered next => exact hp

end Process

namespace Loop

variable {T : Terms σ} {post : List Lock → σ → ρ → Prop} {body : κ → Process σ κ ρ ρ} {task : Nat}
  {held : List Lock} {l : Loop σ κ ρ} {p : Process σ κ ρ ρ}

/-- Nothing is going on. -/
structure Idle (l : Loop σ κ ρ) : Prop where
  ready : l.ready = []
  errands : l.errands = []
  carried : l.carried = none
  blocked : l.blocked = []
  joining : l.joining = []

/-- The state, the locks and the number of tasks do not matter to it. -/
theorem Idle.update (h : l.Idle) {s : σ} {locks : List Lock} {n : Nat} :
    Idle { l with state := s, held := locks, started := n } :=
  ⟨h.ready, h.errands, h.carried, h.blocked, h.joining⟩

theorem run_of_answered (h : (l.answer? task).isSome) (turns : Nat) : run body task turns l = l := by
  cases turns with
  | zero => rfl
  | succ n => rw [run, if_pos h]

theorem run_succ (h : l.answer? task = none) (turns : Nat) :
    run body task (turns + 1) l = run body task turns (l.turn body) := by
  rw [run, h]
  rfl

theorem Idle.finish (h : l.Idle) (a : ρ) : l.finish task a = { l with answers := (task, a) :: l.answers } := by
  rw [Loop.finish, h.joining, wake, ← h.joining]

/-- A process that pauses goes on in the next turn. -/
theorem Idle.run_pause (h : l.Idle) (hanswer : l.answer? task = none) (n : Nat) :
    run body task (n + 1) (resume body task (.pause p) l) = run body task n (resume body task p l) := by
  obtain ⟨hready, -, -, -, -⟩ := h
  have hgoes : (resume body task (.pause p) l).answer? task = none := hanswer
  rw [run_succ hgoes]
  cases l
  cases hready
  rfl

/-- A process that sends the worker on an errand goes on in the third turn: first the worker goes, and then word
of it arrives. -/
theorem Idle.run_errand (h : l.Idle) (hanswer : l.answer? task = none) (brief : σ → Bool) (change : σ → σ)
    (next : σ → Process σ κ ρ ρ) (n : Nat) :
    run body task (n + 3) (resume body task (.errand brief change next) l) =
      run body task n (resume body task (next l.state) { l with state := change l.state }) := by
  obtain ⟨hready, herrands, hcarried, -, -⟩ := h
  cases l
  cases hready
  cases herrands
  cases hcarried
  rw [run_succ (by exact hanswer), run_succ (by exact hanswer), run_succ (by exact hanswer)]
  rfl

/-- **A process that nobody disturbs.** -/
theorem run_alone (body : κ → Process σ κ ρ ρ) (task : Nat) {n turns : Nat}
    (h : p.Leads T post held l.state) (hp : p.Within n) (hl : l.Idle) (hheld : l.held = held)
    (hanswer : l.answer? task = none) (hturns : 3 * n ≤ turns) :
    ∃ held t a, T.guarantee l.state t ∧ post held t a ∧ run body task turns (resume body task p l) =
      { l with state := t, held := held, answers := (task, a) :: l.answers } := by
  -- on the process: at each point where it waits, the turns that this takes are spent
  induction p generalizing l held n turns with
  | done a =>
    refine ⟨held, l.state, a, T.guarantee_refl _, h, ?_⟩
    rw [resume, hl.finish, run_of_answered (by simp [answer?]), ← hheld]
  | act change next ih =>
    obtain ⟨held', t, a, hkept, hpost, hrun⟩ := ih l.state (l := { l with state := change l.state }) h.2
      (hp l.state) hl.update hheld hanswer hturns
    exact ⟨held', t, a, T.guarantee_trans h.1 hkept, hpost, hrun⟩
  | pause next ih =>
    obtain ⟨m, rfl, hnext⟩ := hp
    obtain ⟨k, rfl⟩ : ∃ k, turns = k + 1 := ⟨turns - 1, by omega⟩
    rw [hl.run_pause hanswer]
    exact ih (h _ (T.rely_refl _)) hnext hl hheld hanswer (by omega)
  | errand brief change next ih =>
    obtain ⟨m, rfl, hnext⟩ := hp
    obtain ⟨k, rfl⟩ : ∃ k, turns = k + 3 := ⟨turns - 3, by omega⟩
    obtain ⟨hchange, hleads⟩ := h l.state (T.rely_refl _)
    obtain ⟨held', t, a, hkept, hpost, hrun⟩ := ih l.state (l := { l with state := change l.state })
      (hleads _ (T.rely_refl _)) (hnext _) hl.update hheld
      hanswer (show 3 * m ≤ k by omega)
    rw [hl.run_errand hanswer]
    exact ⟨held', t, a, T.guarantee_trans hchange hkept, hpost, hrun⟩
  | acquire lock next ih =>
    obtain ⟨-, hfree, hnext⟩ := h
    rw [resume, if_neg (hheld ▸ hfree)]
    exact ih (l := { l with held := lock :: l.held }) (by rwa [hheld]) hp
      hl.update rfl hanswer hturns
  | release lock next ih =>
    obtain ⟨-, -, hnext⟩ := h
    have hnobody : ∀ b ∈ l.blocked, b.lock ≠ lock := by simp [hl.blocked]
    rw [resume, free_of_forall_ne hnobody]
    exact ih (l := { l with held := l.held.erase lock }) (by rwa [hheld]) hp
      hl.update rfl hanswer hturns
  | start task next => exact h.elim
  | join tasks gathered next => exact h.elim

/-- A process that begins where nothing else is going on has ended when three turns were taken for each time that
it waits. -/
theorem perform_alone {n turns : Nat} (h : p.Leads T post [] l.state) (hp : p.Within n) (hl : l.Idle)
    (hheld : l.held = []) (hanswer : l.answer? l.started = none) (hturns : 3 * n ≤ turns) :
    ∃ held t a, T.guarantee l.state t ∧ post held t a ∧ l.perform body turns p =
      ({ l with state := t, held := held, started := l.started + 1, answers := (l.started, a) :: l.answers },
        some a) := by
  let m : Loop σ κ ρ := { l with started := l.started + 1 }
  have hm : m.Idle := hl.update
  obtain ⟨held, t, a, hkept, hpost, hrun⟩ := run_alone body l.started (l := m) h hp hm hheld hanswer hturns
  refine ⟨held, t, a, hkept, hpost, ?_⟩
  simp only [perform, m, hrun]
  simp [answer?]

end Loop

end LanguageUsage
