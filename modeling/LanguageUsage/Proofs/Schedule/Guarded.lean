import LanguageUsage.Proofs.Schedule.Changes
import LanguageUsage.Proofs.Schedule.Single
import Mathlib.Data.List.Perm.Basic

/-!
# What a lock guards

A lock keeps a part of the state for the one who holds it. If every process changes this part, or makes a change that
has to be allowed, only while it holds the lock, then it finds the part as it left it, however long it has to wait in
between: so it can be told from its own doings whether its changes are allowed.

* `Guard`: a lock with what it guards;
* `Process.Abstains`: a process that leaves both alone; `Process.Heeds`: one that heeds the lock;
* `Loop.parked`: all who will go on; `Guard.Kept`: at most one of them knows the guarded part, and it knows it well;
* `Loop.Keeps.resume`, `Course.Makes.keeps`: this is kept, and all changes are allowed;
* `Course.Unfolds.allowed`: so are all changes of a course.
-/

namespace LanguageUsage

variable {σ κ ρ ν α β : Type}

/-- A part of the state, and the lock that one has to hold in order to change it. -/
structure Guard (σ ν : Type) where
  lock : Lock
  /-- the part of a state that is guarded -/
  view : σ → ν
  /-- a change may be made in a state -/
  allows : (σ → σ) → σ → Prop

/-- A change that is allowed without the lock. -/
def Guard.Spares (G : Guard σ ν) (change : σ → σ) : Prop := ∀ s, G.view (change s) = G.view s ∧ G.allows change s

namespace Process

variable {G : Guard σ ν}

/-! ### Processes that heed a lock -/

/-- A process has nothing to do with a lock and what it guards. -/
def Abstains (G : Guard σ ν) : Process σ κ ρ α → Prop
  | done _ => True
  | act change next => G.Spares change ∧ ∀ s, Abstains G (next s)
  | pause next => Abstains G next
  | errand _ change next => G.Spares change ∧ ∀ s, Abstains G (next s)
  | acquire lock next => lock ≠ G.lock ∧ Abstains G next
  | release lock next => lock ≠ G.lock ∧ Abstains G next
  | start _ next => ∀ n, Abstains G (next n)
  | join _ _ next => ∀ rs, Abstains G (next rs)

/-- A process makes no change that is not allowed, and changes what is guarded only while it holds the lock. It knows
what is guarded if it holds the lock, and nothing of it otherwise. -/
def Heeds (G : Guard σ ν) (post : Option ν → α → Prop) : Process σ κ ρ α → Option ν → Prop
  | done a, known => post known a
  | act change next, known => ∀ s, (∀ x ∈ known, G.view s = x) → G.allows change s ∧
      (known = none → G.view (change s) = G.view s) ∧ Heeds G post (next s) (known.map fun _ => G.view (change s))
  | pause next, known => Heeds G post next known
  | errand _ change next, known => G.Spares change ∧ ∀ s, Heeds G post (next s) known
  | acquire lock next, known => (lock = G.lock → known = none ∧ ∀ x, Heeds G post next (some x)) ∧
      (lock ≠ G.lock → Heeds G post next known)
  | release lock next, known => (lock = G.lock → known ≠ none ∧ Heeds G post next none) ∧
      (lock ≠ G.lock → Heeds G post next known)
  | start _ next, known => ∀ n, Heeds G post (next n) known
  | join _ _ next, known => ∀ rs, Heeds G post (next rs) known

/-- A process heeds a lock, and does not hold it at the end. -/
def Minds (G : Guard σ ν) (known : Option ν) (p : Process σ κ ρ α) : Prop := p.Heeds G (fun k _ => k = none) known

theorem Abstains.bind {p : Process σ κ ρ α} {f : α → Process σ κ ρ β} (hp : p.Abstains G)
    (hf : ∀ a, (f a).Abstains G) : (p.bind f).Abstains G := by
  induction p with
  | done a => exact hf a
  | act change next ih => exact ⟨hp.1, fun s => ih s (hp.2 s)⟩
  | pause next ih => exact ih hp
  | errand brief change next ih => exact ⟨hp.1, fun s => ih s (hp.2 s)⟩
  | acquire lock next ih => exact ⟨hp.1, ih hp.2⟩
  | release lock next ih => exact ⟨hp.1, ih hp.2⟩
  | start task next ih => exact fun n => ih n (hp n)
  | join tasks gathered next ih => exact fun rs => ih rs (hp rs)

theorem heeds_bind {post : Option ν → β → Prop} (p : Process σ κ ρ α) (f : α → Process σ κ ρ β) {known : Option ν} :
    (p.bind f).Heeds G post known ↔ p.Heeds G (fun k a => (f a).Heeds G post k) known := by
  induction p generalizing known <;> simp_all [Process.bind, Heeds]

/-- Whoever leaves a lock alone heeds it, and knows at the end what it knew before. -/
theorem Abstains.heeds {post : Option ν → α → Prop} {p : Process σ κ ρ α} {known : Option ν} (hp : p.Abstains G)
    (h : ∀ a, post known a) : p.Heeds G post known := by
  induction p with
  | done a => exact h a
  | act change next ih =>
    intro s hs
    obtain ⟨hview, hallowed⟩ := hp.1 s
    have hknown : known.map (fun _ => G.view (change s)) = known := by
      cases known with
      | none => rfl
      | some x => rw [Option.map_some, hview, hs x rfl]
    refine ⟨hallowed, fun _ => hview, ?_⟩
    rw [hknown]
    exact ih s (hp.2 s)
  | pause next ih => exact ih hp
  | errand brief change next ih => exact ⟨hp.1, fun s => ih s (hp.2 s)⟩
  | acquire lock next ih => exact ⟨fun hlock => absurd hlock hp.1, fun _ => ih hp.2⟩
  | release lock next ih => exact ⟨fun hlock => absurd hlock hp.1, fun _ => ih hp.2⟩
  | start task next ih => exact fun n => ih n (hp n)
  | join tasks gathered next ih => exact fun rs => ih rs (hp rs)

theorem Abstains.minds {p : Process σ κ ρ α} (hp : p.Abstains G) : p.Minds G none := hp.heeds fun _ => rfl

end Process

/-! ### Who knows what is guarded -/

namespace Guard

/-- Where the given locks are held and `x` is guarded, the processes `ps` heed the lock, and so does one more that goes
on at the moment. As many of them know what is guarded as hold the lock, which is at most one, and what it knows
is `x`. -/
inductive Kept (G : Guard σ ν) (held : List Lock) (x : ν) (known : Option ν) (ps : List (Process σ κ ρ ρ)) : Prop
  | intro {ks : List (Option ν)} (minds : List.Forall₂ (fun p k => p.Minds G k) ps ks)
      (knows : ∀ y, some y ∈ known :: ks → y = x) (holders : (known :: ks).countP Option.isSome = held.count G.lock)
      (single : held.count G.lock ≤ 1)

namespace Kept

variable {G : Guard σ ν} {held : List Lock} {x y : ν} {known : Option ν} {p q : Process σ κ ρ ρ}
  {ps qs : List (Process σ κ ρ ρ)}

theorem nil (hheld : G.lock ∉ held) : G.Kept held x none ([] : List (Process σ κ ρ ρ)) := by
  have hcount : held.count G.lock = 0 := List.count_eq_zero_of_not_mem hheld
  exact .intro .nil (by simp) (by simp [hcount]) (by simp [hcount])

theorem perm (h : G.Kept held x known ps) (hperm : qs.Perm ps) : G.Kept held x known qs := by
  obtain ⟨minds, knows, holders, single⟩ := h
  obtain ⟨ks, hks, hsame⟩ := List.perm_comp_forall₂ hperm minds
  exact .intro hks (fun y hy => knows y ((hsame.cons known).subset hy)) (((hsame.cons known).countP_eq _).trans holders)
    single

/-- The one who goes on knows what is guarded if it knows anything of it. -/
theorem eq_of_known (h : G.Kept held x known ps) : ∀ y ∈ known, x = y := by
  obtain ⟨-, knows, -, -⟩ := h
  rintro y rfl
  exact (knows y List.mem_cons_self).symm

/-- Other locks do not matter. -/
theorem of_count_eq {locks : List Lock} (h : G.Kept held x known ps) (hcount : locks.count G.lock = held.count G.lock) :
    G.Kept locks x known ps := by
  obtain ⟨minds, knows, holders, single⟩ := h
  exact ⟨minds, knows, holders.trans hcount.symm, hcount ▸ single⟩

/-- One more process waits, which does not hold the lock. -/
theorem add (h : G.Kept held x known ps) (hp : p.Minds G none) : G.Kept held x known (p :: ps) := by
  obtain @⟨ks, minds, knows, holders, single⟩ := h
  have hminds : List.Forall₂ (fun p k => p.Minds G k) (p :: ps) (none :: ks) := .cons hp minds
  refine .intro hminds (fun y hy => knows y ?_) ?_ single
  · simpa using hy
  · rw [(List.Perm.swap none known ks).countP_eq, List.countP_cons_of_neg Bool.false_ne_true]
    exact holders

/-- The one who goes on has to wait. -/
theorem park (h : G.Kept held x known ps) (hp : p.Minds G known) : G.Kept held x none (p :: ps) := by
  obtain @⟨ks, minds, knows, holders, single⟩ := h
  have hminds : List.Forall₂ (fun p k => p.Minds G k) (p :: ps) (known :: ks) := .cons hp minds
  refine .intro hminds (fun y hy => knows y ?_) ?_ single
  · exact (List.mem_cons.1 hy).resolve_left (Option.some_ne_none y)
  · rw [List.countP_cons_of_neg Bool.false_ne_true]
    exact holders

/-- One of those who wait goes on. -/
theorem take (h : G.Kept held x none (p :: ps)) : ∃ known, p.Minds G known ∧ G.Kept held x known ps := by
  obtain @⟨ks, minds, knows, holders, single⟩ := h
  rw [List.countP_cons_of_neg Bool.false_ne_true] at holders
  cases minds with
  | cons hp hps => exact ⟨_, hp, .intro hps (fun y hy => knows y (List.mem_cons_of_mem _ hy)) holders single⟩

/-- One of those who wait is replaced by one that heeds the lock in the same way. -/
theorem replace (h : G.Kept held x known (p :: ps)) (hpq : ∀ k, p.Minds G k → q.Minds G k) :
    G.Kept held x known (q :: ps) := by
  obtain @⟨ks, minds, knows, holders, single⟩ := h
  cases minds with
  | cons hp hps => exact .intro (.cons (hpq _ hp) hps) knows holders single

/-- If the one who goes on holds the lock, nobody else does. -/
theorem others {ks : List (Option ν)} (holders : (some y :: ks).countP Option.isSome = held.count G.lock)
    (single : held.count G.lock ≤ 1) : held.count G.lock = 1 ∧ ∀ k ∈ ks, k = none := by
  rw [List.countP_cons_of_pos (show (some y).isSome from rfl)] at holders
  have hnone : ks.countP Option.isSome = 0 := by omega
  exact ⟨by omega, fun k hk => by simpa using List.countP_eq_zero.1 hnone k hk⟩

/-- The one who goes on changes the state; what is guarded is changed only by one who knows it. -/
theorem update (h : G.Kept held x known ps) (hy : known = none → y = x) : G.Kept held y (known.map fun _ => y) ps := by
  cases known with
  | none => rwa [hy rfl]
  | some z =>
    obtain ⟨minds, -, holders, single⟩ := h
    refine .intro minds (fun v hv => ?_) holders single
    rcases List.mem_cons.1 hv with hv | hv
    · exact Option.some.inj hv
    · exact absurd ((others holders single).2 _ hv) (Option.some_ne_none v)

/-- The one who goes on takes the lock, if nobody holds it. -/
theorem acquire (h : G.Kept held x none ps) (hheld : G.lock ∉ held) : G.Kept (G.lock :: held) x (some x) ps := by
  obtain @⟨ks, minds, knows, holders, single⟩ := h
  have hzero : held.count G.lock = 0 := List.count_eq_zero_of_not_mem hheld
  rw [List.countP_cons_of_neg Bool.false_ne_true] at holders
  refine .intro minds (fun y hy => ?_) ?_ ?_
  · rcases List.mem_cons.1 hy with hy | hy
    · exact Option.some.inj hy
    · exact knows y (List.mem_cons_of_mem _ hy)
  · rw [List.countP_cons_of_pos rfl, holders, List.count_cons_self]
  · rw [List.count_cons_self, hzero]

/-- The one who goes on gives the lock up, and nobody waits for it. -/
theorem release (h : G.Kept held x (some y) ps) : G.Kept (held.erase G.lock) x none ps := by
  obtain @⟨ks, minds, -, holders, single⟩ := h
  obtain ⟨hone, hothers⟩ := others holders single
  have hzero : (held.erase G.lock).count G.lock = 0 := by rw [List.count_erase_self, hone]
  have hnone : (none :: ks).countP Option.isSome = 0 := List.countP_eq_zero.2 fun k hk => by
    rcases List.mem_cons.1 hk with rfl | hk
    · exact Bool.false_ne_true
    · rw [hothers k hk]
      exact Bool.false_ne_true
  refine .intro minds (fun z hz => ?_) (hnone.trans hzero.symm) (hzero ▸ Nat.zero_le 1)
  exact absurd (hothers _ ((List.mem_cons.1 hz).resolve_left (Option.some_ne_none z))) (Option.some_ne_none z)

/-- The one who goes on hands the lock over to one who waits for it. -/
theorem handOver (h : G.Kept held x (some y) (.acquire G.lock p :: ps)) : G.Kept held x none (.pause p :: ps) := by
  obtain @⟨ks, minds, knows, holders, single⟩ := h
  obtain ⟨-, hothers⟩ := others holders single
  cases minds with
  | @cons _ k _ ks hp hps =>
    obtain rfl : k = none := hothers k List.mem_cons_self
    rw [List.countP_cons_of_pos rfl, List.countP_cons_of_neg Bool.false_ne_true] at holders
    have hminds : List.Forall₂ (fun p k => p.Minds G k) (.pause p :: ps) (some x :: ks) := .cons ((hp.1 rfl).2 x) hps
    refine .intro hminds (fun z hz => ?_) ?_ single
    · rcases List.mem_cons.1 ((List.mem_cons.1 hz).resolve_left (Option.some_ne_none z)) with hz | hz
      · exact Option.some.inj hz
      · exact knows z (List.mem_cons_of_mem _ (List.mem_cons_of_mem _ hz))
    · rw [List.countP_cons_of_neg Bool.false_ne_true, List.countP_cons_of_pos rfl]
      exact holders

end Kept

end Guard

/-! ### Loops -/

/-- One who waits for a lock. -/
def Blocked.waiting (b : Blocked σ κ ρ) : Process σ κ ρ ρ := .acquire b.lock b.process

/-- One who waits for tasks. -/
def Joining.waiting (j : Joining σ κ ρ) : Process σ κ ρ ρ := .join j.tasks j.gathered j.next

namespace Loop

variable {l : Loop σ κ ρ} {G : Guard σ ν} {known : Option ν} {body : κ → Process σ κ ρ ρ} {task : Nat}

/-- All who will go on, each with what it does next. -/
def parked (l : Loop σ κ ρ) : List (Process σ κ ρ ρ) :=
  l.pending.map Prod.snd ++ (l.blocked.map Blocked.waiting ++ l.joining.map Joining.waiting)

theorem parked_enqueue (r : Ready σ κ ρ) : (l.enqueue r).parked.Perm (.pause r.process :: l.parked) :=
  ((pending_enqueue r).map Prod.snd).append_right _

theorem parked_send (e : Errand σ κ ρ) : (parked { l with errands := l.errands ++ [e] }).Perm
    (.errand e.brief e.change e.next :: l.parked) :=
  ((pending_send e).map Prod.snd).append_right _

theorem parked_block (b : Blocked σ κ ρ) :
    (parked { l with blocked := l.blocked ++ [b] }).Perm (b.waiting :: l.parked) := by
  have hblocked : (l.blocked ++ [b]).map Blocked.waiting ++ l.joining.map Joining.waiting =
      l.blocked.map Blocked.waiting ++ b.waiting :: l.joining.map Joining.waiting := by simp
  show (l.pending.map Prod.snd ++ _).Perm _
  rw [hblocked, ← List.append_assoc]
  exact List.perm_middle.trans (.of_eq (by rw [List.append_assoc]; rfl))

theorem parked_join (j : Joining σ κ ρ) :
    (parked { l with joining := l.joining ++ [j] }).Perm (j.waiting :: l.parked) := by
  have hjoining : parked { l with joining := l.joining ++ [j] } = l.parked ++ [j.waiting] := by
    simp [parked, pending]
  rw [hjoining]
  exact List.perm_append_singleton _ _

/-- One of those who wait for a lock is taken out. -/
theorem parked_of_blocked {as bs : List (Blocked σ κ ρ)} {b : Blocked σ κ ρ} (hl : l.blocked = as ++ b :: bs) :
    l.parked.Perm (b.waiting :: parked { l with blocked := as ++ bs }) := by
  have hblocked : (l.blocked.map Blocked.waiting ++ l.joining.map Joining.waiting).Perm
      (b.waiting :: ((as ++ bs).map Blocked.waiting ++ l.joining.map Joining.waiting)) := by
    rw [hl]
    exact (List.perm_middle.map _).append_right _
  exact (hblocked.append_left _).trans List.perm_middle

/-- While one goes on who knows what is guarded, or nothing of it, a loop keeps to a guard. -/
def Keeps (G : Guard σ ν) (known : Option ν) (l : Loop σ κ ρ) : Prop := G.Kept l.held (G.view l.state) known l.parked

namespace Keeps

theorem enqueue (h : l.Keeps G known) {r : Ready σ κ ρ} (hr : r.process.Minds G known) : (l.enqueue r).Keeps G none :=
  (Guard.Kept.park (p := .pause r.process) h hr).perm (parked_enqueue r)

/-- Those who wait for tasks go on if these have ended. -/
theorem wake {js : List (Joining σ κ ρ)}
    (h : G.Kept l.held (G.view l.state) none (js.map Joining.waiting ++ l.parked)) : (l.wake js).Keeps G none := by
  induction js generalizing l with
  | nil => exact h
  | cons j js ih =>
    have hcons : G.Kept l.held (G.view l.state) none (j.waiting :: (js.map Joining.waiting ++ l.parked)) := h
    simp only [Loop.wake]
    split
    · next rs _ =>
      have hwoken : G.Kept l.held (G.view l.state) none (.pause (j.next rs) :: (js.map Joining.waiting ++ l.parked)) :=
        hcons.replace fun k hk => hk rs
      refine ih (hwoken.perm ?_)
      exact ((parked_enqueue _).append_left _).trans List.perm_middle
    · refine ih (hcons.perm ?_)
      exact ((parked_join j).append_left _).trans List.perm_middle

theorem finish (h : l.Keeps G none) (r : ρ) : (l.finish task r).Keeps G none := by
  refine wake (l := { l with answers := (task, r) :: l.answers, joining := [] }) (h.perm ?_)
  show (l.joining.map Joining.waiting ++ (l.pending.map Prod.snd ++ (l.blocked.map Blocked.waiting ++ []))).Perm _
  rw [List.append_nil, parked, ← List.append_assoc (l.pending.map Prod.snd)]
  exact List.perm_append_comm

/-- The one who goes on gives a lock up. -/
theorem free {lock : Lock} {next : Process σ κ ρ ρ} (h : l.Keeps G known)
    (hp : (Process.release lock next).Minds G known) : ∃ k, (l.free lock).Keeps G k ∧ next.Minds G k := by
  by_cases hlock : lock = G.lock
  · subst hlock
    obtain ⟨hknown, hnext⟩ := hp.1 rfl
    obtain ⟨x, rfl⟩ := Option.ne_none_iff_exists'.1 hknown
    refine ⟨none, ?_, hnext⟩
    rcases l.free_cases G.lock with hne | ⟨as, b, bs, happ, hb, has⟩
    · rw [Loop.free_of_forall_ne hne]
      exact h.release
    · have hwaiting : b.waiting = Process.acquire G.lock b.process := by rw [Blocked.waiting, hb]
      rw [Loop.free_of_eq_append happ hb has]
      have hover := Guard.Kept.handOver (hwaiting ▸ h.perm (parked_of_blocked happ).symm)
      exact hover.perm (parked_enqueue (l := { l with blocked := as ++ bs }) _)
  · refine ⟨known, ?_, hp.2 hlock⟩
    rcases l.free_cases lock with hne | ⟨as, b, bs, happ, hb, has⟩
    · rw [Loop.free_of_forall_ne hne]
      exact Guard.Kept.of_count_eq h (List.count_erase_of_ne (Ne.symm hlock))
    · rw [Loop.free_of_eq_append happ hb has]
      have hover : G.Kept l.held (G.view l.state) known (.pause b.process :: parked { l with blocked := as ++ bs }) :=
        (h.perm (parked_of_blocked happ).symm).replace fun k hk => hk.2 (hb ▸ hlock)
      exact hover.perm (parked_enqueue (l := { l with blocked := as ++ bs }) _)

/-- **A process that heeds a lock goes on, and makes only changes that are allowed.** -/
theorem resume (hbody : ∀ k, (body k).Minds G none) (p : Process σ κ ρ ρ) (h : l.Keeps G known)
    (hp : p.Minds G known) :
    (Loop.resume body task p l).Keeps G none ∧ ∀ c ∈ changes body p l, G.allows c.make c.before := by
  induction p generalizing l known with
  | done r =>
    obtain rfl : known = none := hp
    exact ⟨h.finish r, List.forall_mem_nil _⟩
  | act change next ih =>
    obtain ⟨hallowed, hview, hnext⟩ := hp l.state h.eq_of_known
    obtain ⟨hkeeps, hall⟩ := ih l.state (l := { l with state := change l.state }) (h.update hview) hnext
    exact ⟨hkeeps, List.forall_mem_cons.2 ⟨hallowed, hall⟩⟩
  | pause next => exact ⟨h.enqueue hp, List.forall_mem_nil _⟩
  | errand brief change next => exact ⟨(Guard.Kept.park h hp).perm (parked_send _), List.forall_mem_nil _⟩
  | acquire lock next ih =>
    by_cases hheld : lock ∈ l.held
    · simp only [Loop.resume, changes, if_pos hheld]
      exact ⟨(Guard.Kept.park h hp).perm (parked_block _), List.forall_mem_nil _⟩
    · simp only [Loop.resume, changes, if_neg hheld]
      by_cases hlock : lock = G.lock
      · subst hlock
        obtain ⟨rfl, hnext⟩ := hp.1 rfl
        exact ih (l := { l with held := G.lock :: l.held }) (h.acquire hheld) (hnext _)
      · refine ih (l := { l with held := lock :: l.held }) (Guard.Kept.of_count_eq h ?_) (hp.2 hlock)
        exact List.count_cons_of_ne hlock
  | release lock next ih =>
    obtain ⟨k, hfree, hnext⟩ := h.free hp
    exact ih hfree hnext
  | start k next ih =>
    refine ih l.started (l := l.begin (body k)) ?_ (hp _)
    exact (Guard.Kept.add (p := .pause (body k)) h (hbody k)).perm (parked_enqueue _)
  | join tasks gathered next ih =>
    cases hanswers : l.answers? tasks with
    | some rs =>
      simp only [Loop.resume, changes, hanswers]
      exact ih rs h (hp rs)
    | none =>
      simp only [Loop.resume, changes, hanswers]
      exact ⟨(Guard.Kept.park h hp).perm (parked_join _), List.forall_mem_nil _⟩

end Keeps

/-- Where nothing is going on and the lock is free, a loop keeps to a guard. -/
theorem Idle.keeps (hl : l.Idle) (hheld : G.lock ∉ l.held) : l.Keeps G none := by
  rw [Keeps, parked, hl.pending, hl.blocked, hl.joining]
  exact .nil hheld

end Loop

/-! ### Courses -/

namespace Course

variable {G : Guard σ ν} {body : κ → Process σ κ ρ ρ} {entrants : Process σ κ ρ ρ → Prop} {c d : Course σ κ ρ}
  {cs : List (Change σ)}

/-- Whoever goes on makes only changes that are allowed. -/
theorem Makes.keeps (hbody : ∀ k, (body k).Minds G none) (hm : Makes body c cs d) (h : c.loop.Keeps G none) :
    d.loop.Keeps G none ∧ ∀ f ∈ cs, G.allows f.make f.before := by
  cases hm with
  | @resume l begun as bs r ready order =>
    have hperm : l.parked.Perm (.pause r.process :: Loop.parked { l with ready := as ++ bs }) :=
      ((Loop.pending_take ready).map Prod.snd).append_right _
    obtain ⟨known, hminds, htake⟩ := (Guard.Kept.perm h hperm.symm).take
    exact Loop.Keeps.resume (l := { l with ready := as ++ bs }) hbody r.process htake hminds
  | @carryOut l begun e es carried errands =>
    obtain ⟨hbefore, hafter⟩ := Loop.pending_carryOut carried errands
    have hperm : l.parked.Perm (.errand e.brief e.change e.next :: Loop.parked { l with errands := es }) :=
      (hbefore.map Prod.snd).append_right _
    have hperm' : (Loop.parked { l.carryOut e with errands := es }).Perm
        (.pause (e.next l.state) :: Loop.parked { l with errands := es }) := (hafter.map Prod.snd).append_right _
    obtain ⟨known, ⟨hspares, hnext⟩, htake⟩ := (Guard.Kept.perm h hperm.symm).take
    obtain ⟨hview, hallowed⟩ := hspares l.state
    refine ⟨?_, List.forall_mem_singleton.2 hallowed⟩
    show G.Kept l.held (G.view (e.change l.state)) none _
    rw [hview]
    exact (htake.park (p := .pause (e.next l.state)) (hnext l.state)).perm hperm'
  | @report l begun r carried =>
    have hreport : l.report = ({ l with carried := none } : Loop σ κ ρ).enqueue r := by rw [Loop.report, carried]
    have hperm := Loop.pending_report l
    rw [hreport] at hperm ⊢
    exact ⟨Guard.Kept.perm h ((hperm.map Prod.snd).append_right _), List.forall_mem_nil _⟩
  | pass hpass =>
    cases hpass with
    | @later l begun as bs r ready delay =>
      exact ⟨Guard.Kept.perm h (((Loop.pending_pass ready delay).map Prod.snd).append_right _), List.forall_mem_nil _⟩

/-- A process that is entered does so, too. -/
theorem keeps_enter (hbody : ∀ k, (body k).Minds G none) {p : Process σ κ ρ ρ} (hp : p.Minds G none)
    (h : c.loop.Keeps G none) : (c.enter body p).loop.Keeps G none ∧
      ∀ f ∈ Loop.changes body p { c.loop with started := c.loop.started + 1 }, G.allows f.make f.before :=
  Loop.Keeps.resume (l := { c.loop with started := c.loop.started + 1 }) hbody p h hp

/-- **All changes of a course are allowed** if all its processes heed the lock. -/
theorem Unfolds.allowed (hbody : ∀ k, (body k).Minds G none) (hentrants : ∀ p, entrants p → p.Minds G none)
    (hc : c.loop.Keeps G none) (h : Unfolds body entrants c cs d) :
    d.loop.Keeps G none ∧ ∀ f ∈ cs, G.allows f.make f.before := by
  induction h with
  | start => exact ⟨hc, List.forall_mem_nil _⟩
  | enter h hp ih =>
    obtain ⟨hkeeps, hall⟩ := keeps_enter hbody (hentrants _ hp) ih.1
    exact ⟨hkeeps, List.forall_mem_append.2 ⟨ih.2, hall⟩⟩
  | makes h hm ih =>
    obtain ⟨hkeeps, hall⟩ := hm.keeps hbody ih.1
    exact ⟨hkeeps, List.forall_mem_append.2 ⟨ih.2, hall⟩⟩

end Course

end LanguageUsage
