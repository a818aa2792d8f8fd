import LanguageUsage.Proofs.Schedule.Watch

/-!
# The changes of a course

The state of a loop changes only while somebody goes on: a process changes it at once, or has it changed by the
worker. Here these changes are listed one by one, each with the state in which it is made.

* `Change`: a change of the state, and the state before it; `Change.Chain`: changes that follow each other;
* `Loop.changes`: the changes that a process makes until it has to wait;
* `Course.Makes`: somebody goes on or is passed over; `Course.moves_iff`: these are the moves of a course;
* `Course.Unfolds`: a course with all its changes, while processes are entered;
* `Course.Unfolds.chain`: from the first state they lead to the last.
-/

namespace LanguageUsage

variable {σ κ ρ : Type}

/-- A change of the state, and the state in which it is made. -/
structure Change (σ : Type) where
  make : σ → σ
  before : σ

namespace Change

/-- The state after a change. -/
def after (c : Change σ) : σ := c.make c.before

/-- Changes that follow each other lead from one state to another. -/
def Chain : σ → List (Change σ) → σ → Prop
  | s, [], t => s = t
  | s, c :: cs, t => c.before = s ∧ Chain c.after cs t

theorem chain_append {s u : σ} {cs ds : List (Change σ)} :
    Chain s (cs ++ ds) u ↔ ∃ t, Chain s cs t ∧ Chain t ds u := by
  induction cs generalizing s with
  | nil => simp [Chain]
  | cons c cs ih => simp [Chain, ih, and_assoc]

/-- What is so at first and is kept by every change is so at all times. -/
theorem Chain.forall_before {P : σ → Prop} {s t : σ} {cs : List (Change σ)} (h : Chain s cs t) (hs : P s)
    (hstep : ∀ c ∈ cs, P c.before → P c.after) : (∀ c ∈ cs, P c.before) ∧ P t := by
  induction cs generalizing s with
  | nil =>
    obtain rfl : s = t := h
    exact ⟨List.forall_mem_nil _, hs⟩
  | cons c cs ih =>
    obtain ⟨rfl, hcs⟩ := h
    obtain ⟨hbefore, hlast⟩ := ih hcs (hstep c List.mem_cons_self hs) fun d hd => hstep d (List.mem_cons_of_mem _ hd)
    exact ⟨List.forall_mem_cons.2 ⟨hs, hbefore⟩, hlast⟩

end Change

namespace Loop

/-- The changes that a process makes until it has to wait or has ended. -/
def changes (body : κ → Process σ κ ρ ρ) : Process σ κ ρ ρ → Loop σ κ ρ → List (Change σ)
  | .act change next, l => ⟨change, l.state⟩ :: changes body (next l.state) { l with state := change l.state }
  | .acquire lock next, l => if lock ∈ l.held then [] else changes body next { l with held := lock :: l.held }
  | .release lock next, l => changes body next (l.free lock)
  | .start k next, l => changes body (next l.started) (l.begin (body k))
  | .join tasks _ next, l =>
    match l.answers? tasks with
    | some rs => changes body (next rs) l
    | none => []
  | .done _, _ | .pause _, _ | .errand _ _ _, _ => []

@[simp] theorem state_free (l : Loop σ κ ρ) (lock : Lock) : (l.free lock).state = l.state := by
  unfold free
  split <;> rfl

/-- These are all changes that it makes. -/
theorem chain_changes (body : κ → Process σ κ ρ ρ) (task : Nat) (p : Process σ κ ρ ρ) (l : Loop σ κ ρ) :
    Change.Chain l.state (changes body p l) (resume body task p l).state := by
  induction p generalizing l with
  | done r => exact (state_finish r).symm
  | act change next ih => exact ⟨rfl, ih l.state { l with state := change l.state }⟩
  | pause next => exact rfl
  | errand brief change next => exact rfl
  | acquire lock next ih =>
    by_cases hheld : lock ∈ l.held
    · simp only [changes, resume, if_pos hheld]
      exact rfl
    · simp only [changes, resume, if_neg hheld]
      exact ih { l with held := lock :: l.held }
  | release lock next ih => exact l.state_free lock ▸ ih (l.free lock)
  | start k next ih => exact ih l.started (l.begin (body k))
  | join tasks gathered next ih =>
    cases hanswers : l.answers? tasks with
    | some rs =>
      simp only [changes, resume, hanswers]
      exact ih rs l
    | none =>
      simp only [changes, resume, hanswers]
      exact rfl

end Loop

namespace Course

variable {body : κ → Process σ κ ρ ρ} {c d e : Course σ κ ρ} {cs : List (Change σ)}

/-- Somebody goes on and makes some changes, or is passed over. -/
inductive Makes (body : κ → Process σ κ ρ ρ) : Course σ κ ρ → List (Change σ) → Course σ κ ρ → Prop
  | resume {l : Loop σ κ ρ} {begun : List Nat} {as bs : List (Ready σ κ ρ)} {r : Ready σ κ ρ}
      (ready : l.ready = as ++ r :: bs)
      (order : r.task ∈ begun ∨ ∀ q ∈ as ++ bs, q.task ∈ begun ∨ r.task ≤ q.task) :
      Makes body ⟨l, begun⟩ (Loop.changes body r.process { l with ready := as ++ bs })
        ⟨Loop.resume body r.task r.process { l with ready := as ++ bs }, r.task :: begun⟩
  | carryOut {l : Loop σ κ ρ} {begun : List Nat} {e : Errand σ κ ρ} {es : List (Errand σ κ ρ)}
      (carried : l.carried = none) (errands : l.errands = e :: es) :
      Makes body ⟨l, begun⟩ [⟨e.change, l.state⟩] ⟨{ l.carryOut e with errands := es }, begun⟩
  | report {l : Loop σ κ ρ} {begun : List Nat} {r : Ready σ κ ρ} (carried : l.carried = some r) :
      Makes body ⟨l, begun⟩ [] ⟨l.report, begun⟩
  | pass {c d : Course σ κ ρ} (h : Passes c d) : Makes body c [] d

/-- **Whoever goes on makes some changes.** -/
theorem moves_iff : Moves body c d ↔ ∃ cs, Makes body c cs d := by
  constructor
  · rintro (hgo | hpass)
    · cases hgo with
      | resume ready order => exact ⟨_, .resume ready order⟩
      | carryOut carried errands => exact ⟨_, .carryOut carried errands⟩
      | report carried => exact ⟨_, .report carried⟩
    · exact ⟨[], .pass hpass⟩
  · rintro ⟨cs, hmakes⟩
    cases hmakes with
    | resume ready order => exact .inl (.resume ready order)
    | carryOut carried errands => exact .inl (.carryOut carried errands)
    | report carried => exact .inl (.report carried)
    | pass h => exact .inr h

theorem Makes.chain (h : Makes body c cs d) : Change.Chain c.loop.state cs d.loop.state := by
  cases h with
  | @resume l begun as bs r ready order =>
    exact Loop.chain_changes body r.task r.process { l with ready := as ++ bs }
  | carryOut carried errands => exact ⟨rfl, rfl⟩
  | @report l begun r carried =>
    show l.state = l.report.state
    rw [Loop.report, carried]
    rfl
  | pass h =>
    cases h with
    | later ready delay => exact rfl

/-- A course with all changes that are made in it. At any moment one of the processes `entrants` may be entered. -/
inductive Unfolds (body : κ → Process σ κ ρ ρ) (entrants : Process σ κ ρ ρ → Prop) (c : Course σ κ ρ) :
    List (Change σ) → Course σ κ ρ → Prop
  | start : Unfolds body entrants c [] c
  | enter {cs : List (Change σ)} {d : Course σ κ ρ} (h : Unfolds body entrants c cs d) {p : Process σ κ ρ ρ}
      (hp : entrants p) :
      Unfolds body entrants c (cs ++ Loop.changes body p { d.loop with started := d.loop.started + 1 })
        (d.enter body p)
  | makes {cs ds : List (Change σ)} {d e : Course σ κ ρ} (h : Unfolds body entrants c cs d)
      (hm : Makes body d ds e) : Unfolds body entrants c (cs ++ ds) e

namespace Unfolds

variable {entrants : Process σ κ ρ ρ → Prop}

/-- The changes of a course lead from its first state to its last. -/
theorem chain (h : Unfolds body entrants c cs d) : Change.Chain c.loop.state cs d.loop.state := by
  induction h with
  | start => exact rfl
  | @enter cs d h p hp ih =>
    let l : Loop σ κ ρ := { d.loop with started := d.loop.started + 1 }
    exact Change.chain_append.2 ⟨_, ih, Loop.chain_changes body d.loop.started p l⟩
  | makes h hm ih => exact Change.chain_append.2 ⟨_, ih, hm.chain⟩

theorem moves (h : Unfolds body entrants c cs d) (hm : Moves body d e) :
    ∃ ds, Unfolds body entrants c (cs ++ ds) e := by
  obtain ⟨ds, hmakes⟩ := moves_iff.1 hm
  exact ⟨ds, h.makes hmakes⟩

theorem moves_all (h : Unfolds body entrants c cs d) (hm : Relation.ReflTransGen (Moves body) d e) :
    ∃ ds, Unfolds body entrants c (cs ++ ds) e := by
  induction hm with
  | refl => exact ⟨[], by rwa [List.append_nil]⟩
  | tail _ hm ih =>
    obtain ⟨ds, hds⟩ := ih
    obtain ⟨es, hes⟩ := hds.moves hm
    exact ⟨ds ++ es, by rwa [← List.append_assoc]⟩

end Unfolds

end Course

end LanguageUsage
