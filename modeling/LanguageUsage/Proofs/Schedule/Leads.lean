import LanguageUsage.Schedule.Loop
import Mathlib.Tactic.Common

/-!
# What a process leads to

A process shares the state with others, who may change it while it waits. If it relies on how they change
it, and keeps to what they rely on, one can tell how it ends whoever goes on in between.

* `Terms`: what is expected of the others and of the process itself;
* `Process.Leads`: a process ends as expected;
* `Process.leads_bind`: one process after another;
* `Process.Leads.ends`: there is a way in which it ends;
* `Loop.stops_resume`: where a process stands when it has gone on for once.
-/

namespace LanguageUsage

variable {σ κ ρ α β : Type}

/-- On which terms a process shares the state. -/
structure Terms (σ : Type) where
  /-- what others may do while the process waits -/
  rely : σ → σ → Prop
  /-- what the process may do -/
  guarantee : σ → σ → Prop
  /-- the locks that nobody else takes in the meantime -/
  locks : List Lock
  rely_refl : ∀ s, rely s s
  rely_trans : ∀ {s t u}, rely s t → rely t u → rely s u
  guarantee_refl : ∀ s, guarantee s s
  guarantee_trans : ∀ {s t u}, guarantee s t → guarantee t u → guarantee s u

namespace Process

variable {T : Terms σ}

/-- On the terms `T`, a process that holds the given locks keeps to them and ends as `post` says. -/
def Leads (T : Terms σ) (post : List Lock → σ → α → Prop) :
    Process σ κ ρ α → List Lock → σ → Prop
  | done a, held, s => post held s a
  | act change next, held, s => T.guarantee s (change s) ∧ Leads T post (next s) held (change s)
  | pause next, held, s => ∀ t, T.rely s t → Leads T post next held t
  | errand _ change next, held, s =>
    ∀ t, T.rely s t → T.guarantee t (change t) ∧
      ∀ u, T.rely (change t) u → Leads T post (next t) held u
  | acquire lock next, held, s => lock ∈ T.locks ∧ lock ∉ held ∧ Leads T post next (lock :: held) s
  | release lock next, held, s => lock ∈ T.locks ∧ lock ∈ held ∧ Leads T post next (held.erase lock) s
  | start _ _, _, _ => False
  | join _ _ _, _, _ => False

theorem leads_bind {post : List Lock → σ → β → Prop} (p : Process σ κ ρ α)
    (f : α → Process σ κ ρ β) {held : List Lock} {s : σ} :
    (p.bind f).Leads T post held s ↔
      p.Leads T (fun held s a => (f a).Leads T post held s) held s := by
  induction p generalizing held s <;> simp_all [bind, Leads]

variable {post : List Lock → σ → α → Prop} {p : Process σ κ ρ α} {held : List Lock} {s : σ}

/-- Others may do what a waiting process relies on. -/
theorem Leads.rely_pause {t : σ} (h : (pause p).Leads T post held s) (ht : T.rely s t) :
    (pause p).Leads T post held t :=
  fun u hu => h u (T.rely_trans ht hu)

theorem Leads.rely_errand {brief : σ → Bool} {change : σ → σ} {next : σ → Process σ κ ρ α} {t : σ}
    (h : (errand brief change next).Leads T post held s) (ht : T.rely s t) :
    (errand brief change next).Leads T post held t :=
  fun u hu => h u (T.rely_trans ht hu)

/-- If nobody comes in between, the process ends, too. -/
theorem Leads.ends (h : p.Leads T post held s) : ∃ held t a, T.guarantee s t ∧ post held t a := by
  induction p generalizing held s with
  | done a => exact ⟨held, s, a, T.guarantee_refl s, h⟩
  | act change next ih =>
    obtain ⟨held', t, a, ht, ha⟩ := ih s h.2
    exact ⟨held', t, a, T.guarantee_trans h.1 ht, ha⟩
  | pause next ih => exact ih (h s (T.rely_refl s))
  | errand brief change next ih =>
    obtain ⟨hchange, hnext⟩ := h s (T.rely_refl s)
    obtain ⟨held', t, a, ht, ha⟩ := ih s (hnext (change s) (T.rely_refl _))
    exact ⟨held', t, a, T.guarantee_trans hchange ht, ha⟩
  | acquire lock next ih => exact ih h.2.2
  | release lock next ih => exact ih h.2.2
  | start task next => exact h.elim
  | join tasks gathered next => exact h.elim

end Process

namespace Loop

/-- Where a process `q` with what follows it stands after it has gone on in the loop `l`, in which the
locks `base` are held beside its own. -/
inductive Stops (T : Terms σ) (post : List Lock → σ → α → Prop) (body : κ → Process σ κ ρ ρ)
    (task : Nat) (fin : α → Process σ κ ρ ρ) (base : List Lock) (l : Loop σ κ ρ) :
    Loop σ κ ρ → Prop
  | ended {held : List Lock} {s : σ} {a : α} (kept : T.guarantee l.state s) (h : post held s a) :
    Stops T post body task fin base l
      (resume body task (fin a) { l with state := s, held := held ++ base })
  | paused {held : List Lock} {s : σ} {q : Process σ κ ρ α} (kept : T.guarantee l.state s)
    (h : (Process.pause q).Leads T post held s) :
    Stops T post body task fin base l
      (enqueue { l with state := s, held := held ++ base } ⟨0, task, q.bind fin⟩)
  | sent {held : List Lock} {s : σ} {brief : σ → Bool} {change : σ → σ}
    {next : σ → Process σ κ ρ α} (kept : T.guarantee l.state s)
    (h : (Process.errand brief change next).Leads T post held s) :
    Stops T post body task fin base l
      { l with
        state := s
        held := held ++ base
        errands := l.errands ++ [⟨task, brief, change, fun s => (next s).bind fin⟩] }

section Stops

variable {T : Terms σ} {post : List Lock → σ → α → Prop} {body : κ → Process σ κ ρ ρ} {task : Nat}
  {fin : α → Process σ κ ρ ρ} {base held : List Lock} {l m : Loop σ κ ρ}

/-- It does not matter in which state and with which locks the process began. -/
theorem Stops.of_update {s : σ} (hs : T.guarantee l.state s)
    (h : Stops T post body task fin base { l with state := s, held := held } m) :
    Stops T post body task fin base l m := by
  cases h with
  | ended kept h => exact .ended (T.guarantee_trans hs kept) h
  | paused kept h => exact .paused (T.guarantee_trans hs kept) h
  | sent kept h => exact .sent (T.guarantee_trans hs kept) h

/-- A process that leads somewhere goes on until it ends, pauses or sends the worker on an errand: it has
its locks to itself. -/
theorem stops_resume (q : Process σ κ ρ α) (hbase : ∀ lock ∈ T.locks, lock ∉ base)
    (hblocked : ∀ b ∈ l.blocked, b.lock ∉ T.locks) (hheld : l.held = held ++ base)
    (h : q.Leads T post held l.state) :
    Stops T post body task fin base l (resume body task (q.bind fin) l) := by
  induction q generalizing l held with
  | done a =>
    have hl : l = { l with state := l.state, held := held ++ base } := by rw [← hheld]
    rw [Process.bind, hl]
    exact .ended (T.guarantee_refl _) h
  | act change next ih =>
    have hstops := ih l.state (l := { l with state := change l.state }) hblocked hheld h.2
    exact hstops.of_update h.1
  | pause next =>
    have hl : l = { l with state := l.state, held := held ++ base } := by rw [← hheld]
    rw [Process.bind, resume, hl]
    exact .paused (T.guarantee_refl _) h
  | errand brief change next =>
    have hl : l = { l with state := l.state, held := held ++ base } := by rw [← hheld]
    rw [Process.bind, resume, hl]
    exact .sent (T.guarantee_refl _) h
  | acquire lock next ih =>
    obtain ⟨hlock, hfree, hnext⟩ := h
    have hnot : lock ∉ l.held := by simp [hheld, hfree, hbase lock hlock]
    rw [Process.bind, resume, if_neg hnot]
    have hstops := ih (l := { l with held := lock :: l.held }) hblocked (by simp [hheld]) hnext
    exact hstops.of_update (T.guarantee_refl _)
  | release lock next ih =>
    obtain ⟨hlock, hmem, hnext⟩ := h
    have hne : ∀ b ∈ l.blocked, b.lock ≠ lock := fun b hb hb' => hblocked b hb (hb' ▸ hlock)
    have herase : l.held.erase lock = held.erase lock ++ base := by
      rw [hheld, List.erase_append_left _ hmem]
    rw [Process.bind, resume, free_of_forall_ne hne]
    have hstops := ih (l := { l with held := l.held.erase lock }) hblocked herase hnext
    exact hstops.of_update (T.guarantee_refl _)
  | start task next => exact h.elim
  | join tasks gathered next => exact h.elim

end Stops

end Loop

end LanguageUsage
