import LanguageUsage.Proofs.Schedule.Course
import Mathlib.Data.Multiset.DershowitzManna
import Mathlib.SetTheory.Ordinal.Family
import Mathlib.Tactic.Abel

/-!
# Coming to rest

A process is a tree whose branches all end, though not at a bounded height. So processes that start no
others come to an end, whoever goes on first: whenever one goes on, its tree is replaced by a branch.

* `Process.Childless`: a process starts no tasks;
* `Process.rank`, `Loop.ranks`: how much there is to be done at most;
* `Loop.ranks_resume`: one who goes on leaves less to be done;
* `Course.acc_goes`: no course of childless processes goes on forever.
-/

namespace LanguageUsage

open Multiset

variable {σ κ ρ α β : Type}

/-! ### Processes that start no tasks -/

namespace Process

/-- A process starts no tasks. -/
def Childless : Process σ κ ρ α → Prop
  | done _ => True
  | act _ next => ∀ s, Childless (next s)
  | pause next => Childless next
  | errand _ _ next => ∀ s, Childless (next s)
  | acquire _ next => Childless next
  | release _ next => Childless next
  | start _ _ => False
  | join _ _ next => ∀ rs, Childless (next rs)

theorem Childless.bind {p : Process σ κ ρ α} {f : α → Process σ κ ρ β} (hp : p.Childless)
    (hf : ∀ a, (f a).Childless) : (p.bind f).Childless := by
  induction p with
  | done a => exact hf a
  | act change next ih => exact fun s => ih s (hp s)
  | pause next ih => exact ih hp
  | errand brief change next ih => exact fun s => ih s (hp s)
  | acquire lock next ih => exact ih hp
  | release lock next ih => exact ih hp
  | start task next => exact hp.elim
  | join tasks gathered next ih => exact fun rs => ih rs (hp rs)

/-! ### Ranks -/

/-- The height of a process. What is sent to the worker comes back in two steps. -/
noncomputable def rank : Process σ κ ρ α → Ordinal.{0}
  | done _ => 0
  | act _ next => ⨆ s, rank (next s) + 1
  | pause next => rank next + 1
  | errand _ _ next => (⨆ s, rank (next s) + 1 + 1) + 1
  | acquire _ next => rank next + 1
  | release _ next => rank next + 1
  | start _ next => ⨆ n, rank (next n) + 1
  | join _ _ next => (⨆ rs, rank (next rs) + 1) + 1

end Process

/-- The rank of an errand that is not carried out yet. -/
noncomputable def Errand.rank (e : Errand σ κ ρ) : Ordinal.{0} := ⨆ s, (e.next s).rank + 1 + 1

/-- The rank of a process that waits for tasks. -/
noncomputable def Joining.rank (j : Joining σ κ ρ) : Ordinal.{0} := ⨆ rs, (j.next rs).rank + 1

/-- No more, in the order of multisets in which one member counts for more than any number of smaller
ones. -/
def AtMost (m n : Multiset Ordinal.{0}) : Prop := m = n ∨ IsDershowitzMannaLT m n

section Order

variable {m n k : Multiset Ordinal.{0}} {a b : Ordinal.{0}}

theorem lt_cons (m : Multiset Ordinal.{0}) (a : Ordinal.{0}) : IsDershowitzMannaLT m (a ::ₘ m) :=
  ⟨m, 0, {a}, by simp, by simp, by rw [← singleton_add, add_comm], by simp⟩

theorem cons_lt_cons (h : a < b) (m : Multiset Ordinal.{0}) :
    IsDershowitzMannaLT (a ::ₘ m) (b ::ₘ m) :=
  ⟨m, {a}, {b}, by simp, by rw [← singleton_add, add_comm], by rw [← singleton_add, add_comm],
    by simpa using h⟩

theorem AtMost.trans_lt (h : AtMost m n) (h' : IsDershowitzMannaLT n k) : IsDershowitzMannaLT m k := by
  rcases h with rfl | h
  · exact h'
  · exact h.trans h'

theorem AtMost.trans (h : AtMost m n) (h' : AtMost n k) : AtMost m k := by
  rcases h' with rfl | h'
  · exact h
  · exact .inr (h.trans_lt h')

end Order

namespace Loop

variable {l : Loop σ κ ρ} {body : κ → Process σ κ ρ ρ} {task : Nat}

/-- The ranks of all that has still to be done. -/
noncomputable def ranks (l : Loop σ κ ρ) : Multiset Ordinal.{0} :=
  ↑(l.ready.map fun r => r.process.rank) + ↑(l.errands.map Errand.rank) +
    ↑(l.carried.toList.map fun r => r.process.rank + 1) + ↑(l.blocked.map fun b => b.process.rank) +
    ↑(l.joining.map Joining.rank)

theorem coe_map_append_singleton {τ : Type} (f : τ → Ordinal.{0}) (xs : List τ) (x : τ) :
    (↑((xs ++ [x]).map f) : Multiset Ordinal.{0}) = f x ::ₘ ↑(xs.map f) := by
  rw [cons_coe, List.map_append, coe_eq_coe]
  exact List.perm_append_singleton _ _

theorem ranks_enqueue (r : Ready σ κ ρ) : (l.enqueue r).ranks = r.process.rank ::ₘ l.ranks := by
  simp only [ranks, enqueue, coe_map_append_singleton, cons_add]

theorem ranks_free (lock : Lock) : (l.free lock).ranks = l.ranks := by
  rcases l.free_cases lock with h | ⟨as, b, bs, happ, hb, has⟩
  · rw [free_of_forall_ne h]
    rfl
  · have hmap : (↑(l.blocked.map fun b => b.process.rank) : Multiset Ordinal.{0}) =
        b.process.rank ::ₘ ↑((as ++ bs).map fun b => b.process.rank) := by
      rw [cons_coe, coe_eq_coe, happ]
      exact (List.perm_middle (a := b)).map _
    rw [free_of_eq_append happ hb has]
    simp only [ranks, enqueue, coe_map_append_singleton, hmap, cons_add, add_cons]

theorem ranks_wake (js : List (Joining σ κ ρ)) :
    AtMost (l.wake js).ranks (l.ranks + ↑(js.map Joining.rank)) := by
  induction js generalizing l with
  | nil => exact .inl (by simp [wake])
  | cons j js ih =>
    rw [wake, List.map_cons, ← cons_coe, add_cons]
    split
    · next rs _ =>
      have hlt : (j.next rs).rank < j.rank := Ordinal.lt_iSup_add_one (fun rs => (j.next rs).rank) rs
      refine .inr (ih.trans_lt ?_)
      rw [ranks_enqueue, cons_add]
      exact cons_lt_cons hlt _
    · refine ih.trans (.inl ?_)
      simp only [ranks, coe_map_append_singleton, add_cons, cons_add]

theorem ranks_finish (r : ρ) : AtMost (l.finish task r).ranks l.ranks := by
  refine (ranks_wake l.joining).trans (.inl ?_)
  simp [ranks]

/-- One who goes on leaves less to be done. -/
theorem ranks_resume {p : Process σ κ ρ ρ} (hp : p.Childless) :
    IsDershowitzMannaLT (resume body task p l).ranks (p.rank ::ₘ l.ranks) := by
  induction p generalizing l with
  | done r => exact (ranks_finish r).trans_lt (lt_cons _ _)
  | act change next ih =>
    have hlt : (next l.state).rank < (Process.act change next).rank :=
      Ordinal.lt_iSup_add_one (fun s => (next s).rank) l.state
    exact (ih l.state (l := { l with state := change l.state }) (hp l.state)).trans
      (cons_lt_cons hlt l.ranks)
  | pause next =>
    rw [resume, ranks_enqueue]
    exact cons_lt_cons (Order.lt_add_one_iff.2 le_rfl) _
  | errand brief change next =>
    have hlt : Errand.rank ⟨task, brief, change, next⟩ < (Process.errand brief change next).rank :=
      Order.lt_add_one_iff.2 le_rfl
    refine AtMost.trans_lt (.inl ?_) (cons_lt_cons hlt l.ranks)
    simp only [resume, ranks, coe_map_append_singleton, add_cons, cons_add]
  | acquire lock next ih =>
    have hlt : next.rank < (Process.acquire lock next).rank := Order.lt_add_one_iff.2 le_rfl
    unfold resume
    split
    · -- what waits for a lock counts for less than what asks for it
      refine AtMost.trans_lt (.inl ?_) (cons_lt_cons hlt l.ranks)
      simp only [ranks, coe_map_append_singleton, add_cons, cons_add]
    · exact (ih (l := { l with held := lock :: l.held }) hp).trans (cons_lt_cons hlt l.ranks)
  | release lock next ih =>
    have hlt : next.rank < (Process.release lock next).rank := Order.lt_add_one_iff.2 le_rfl
    have hcons := cons_lt_cons hlt (l.free lock).ranks
    exact (ih (l := l.free lock) hp).trans (by rwa [ranks_free] at hcons ⊢)
  | start k next => exact hp.elim
  | join tasks gathered next ih =>
    have hjoin : Joining.rank ⟨task, tasks, gathered, next⟩ < (Process.join tasks gathered next).rank :=
      Order.lt_add_one_iff.2 le_rfl
    unfold resume
    split
    · -- all tasks have ended
      next rs _ =>
      have hlt : (next rs).rank < Joining.rank ⟨task, tasks, gathered, next⟩ :=
        Ordinal.lt_iSup_add_one (fun rs => (next rs).rank) rs
      exact (ih rs (hp rs)).trans (cons_lt_cons (hlt.trans hjoin) _)
    · refine AtMost.trans_lt (.inl ?_) (cons_lt_cons hjoin l.ranks)
      simp only [ranks, coe_map_append_singleton, add_cons]

/-! ### Loops in which nothing is started -/

/-- None of the processes of a loop starts tasks. -/
structure Childless (l : Loop σ κ ρ) : Prop where
  ready : ∀ r ∈ l.ready, r.process.Childless
  errands : ∀ e ∈ l.errands, ∀ s, (e.next s).Childless
  carried : ∀ r ∈ l.carried, r.process.Childless
  blocked : ∀ b ∈ l.blocked, b.process.Childless
  joining : ∀ j ∈ l.joining, ∀ rs, (j.next rs).Childless

namespace Childless

theorem enqueue (h : l.Childless) {r : Ready σ κ ρ} (hr : r.process.Childless) :
    (l.enqueue r).Childless :=
  { h with ready := by simpa [Loop.enqueue, or_imp, forall_and] using ⟨h.ready, hr⟩ }

theorem free (h : l.Childless) (lock : Lock) : (l.free lock).Childless := by
  rcases l.free_cases lock with hne | ⟨as, b, bs, happ, hlock, has⟩
  · rw [free_of_forall_ne hne]
    exact { h with }
  · have hmem : ∀ c ∈ as ++ bs, c ∈ l.blocked := by
      intro c hc
      rw [happ]
      simp at hc ⊢
      tauto
    rw [free_of_eq_append happ hlock has]
    exact { h.enqueue (r := ⟨0, b.task, b.process⟩) (h.blocked b (by simp [happ])) with
      blocked := fun c hc => h.blocked c (hmem c hc) }

theorem wake {js : List (Joining σ κ ρ)} (h : l.Childless)
    (hjs : ∀ j ∈ js, ∀ rs, (j.next rs).Childless) : (l.wake js).Childless := by
  induction js generalizing l with
  | nil => exact h
  | cons j js ih =>
    obtain ⟨hj, hjs⟩ := List.forall_mem_cons.1 hjs
    unfold Loop.wake
    split
    · exact ih (h.enqueue (hj _)) hjs
    · exact ih { h with joining := by simpa [or_imp, forall_and] using ⟨h.joining, hj⟩ } hjs

theorem finish (h : l.Childless) (r : ρ) : (l.finish task r).Childless := by
  have h' : Childless { l with answers := (task, r) :: l.answers, joining := [] } :=
    { h with joining := List.forall_mem_nil _ }
  exact h'.wake h.joining

theorem resume {p : Process σ κ ρ ρ} (h : l.Childless) (hp : p.Childless) :
    (Loop.resume body task p l).Childless := by
  induction p generalizing l with
  | done r => exact h.finish r
  | act change next ih => exact ih _ { h with } (hp _)
  | pause next => exact h.enqueue hp
  | errand brief change next =>
    exact { h with errands := by simpa [Loop.resume, or_imp, forall_and] using ⟨h.errands, hp⟩ }
  | acquire lock next ih =>
    unfold Loop.resume
    split
    · exact { h with blocked := by simpa [or_imp, forall_and] using ⟨h.blocked, hp⟩ }
    · exact ih { h with } hp
  | release lock next ih => exact ih (h.free lock) hp
  | start k next => exact hp.elim
  | join tasks gathered next ih =>
    unfold Loop.resume
    split
    · exact ih _ h (hp _)
    · exact { h with joining := by simpa [or_imp, forall_and] using ⟨h.joining, hp⟩ }

end Childless

end Loop

/-! ### Courses -/

namespace Course

variable {body : κ → Process σ κ ρ ρ} {c d : Course σ κ ρ}

theorem Goes.childless (h : Goes body c d) (hc : c.loop.Childless) : d.loop.Childless := by
  cases h with
  | @resume l _ as bs r ready _ =>
    have hready : ∀ q ∈ as ++ r :: bs, q.process.Childless := ready ▸ hc.ready
    have hrest : ({ l with ready := as ++ bs } : Loop σ κ ρ).Childless :=
      { hc with ready := fun q hq => hready q (by simp at hq ⊢; tauto) }
    exact hrest.resume (hready r (by simp))
  | @carryOut l _ e es _ errands =>
    have herrands : ∀ f ∈ e :: es, ∀ s, (f.next s).Childless := errands ▸ hc.errands
    exact { hc with
      errands := fun f hf => herrands f (List.mem_cons_of_mem _ hf)
      carried := by
        rintro r ⟨⟩
        exact herrands e List.mem_cons_self _ }
  | @report l _ r carried =>
    have hr : l.report = ({ l with carried := none } : Loop σ κ ρ).enqueue r := by
      rw [Loop.report, carried]
    have hnone : ({ l with carried := none } : Loop σ κ ρ).Childless :=
      { hc with carried := by rintro r ⟨⟩ }
    rw [hr]
    exact hnone.enqueue (hc.carried r carried)

theorem Goes.ranks_lt (h : Goes body c d) (hc : c.loop.Childless) :
    IsDershowitzMannaLT d.loop.ranks c.loop.ranks := by
  cases h with
  | @resume l _ as bs r ready _ =>
    have hmap : (↑(l.ready.map fun r => r.process.rank) : Multiset Ordinal.{0}) =
        r.process.rank ::ₘ ↑((as ++ bs).map fun r => r.process.rank) := by
      rw [cons_coe, coe_eq_coe, ready]
      exact (List.perm_middle (a := r)).map _
    have hl : l.ranks = r.process.rank ::ₘ Loop.ranks { l with ready := as ++ bs } := by
      simp only [Loop.ranks, hmap, cons_add]
    rw [hl]
    exact Loop.ranks_resume (hc.ready r (by simp [ready]))
  | @carryOut l _ e es carried errands =>
    have hlt : (e.next l.state).rank + 1 < e.rank :=
      Ordinal.lt_iSup_add_one (fun s => (e.next s).rank + 1) l.state
    have hl : l.ranks = e.rank ::ₘ Loop.ranks { l with errands := es } := by
      simp only [Loop.ranks, errands, List.map_cons, ← cons_coe, add_cons, cons_add]
    refine AtMost.trans_lt (.inl ?_) (hl ▸ cons_lt_cons hlt _)
    simp only [Loop.ranks, Loop.carryOut, carried, Option.toList, List.map_cons, List.map_nil,
      ← cons_coe, coe_nil, add_cons, cons_add]
  | @report l _ r carried =>
    have hlt : r.process.rank < r.process.rank + 1 := Order.lt_add_one_iff.2 le_rfl
    have hr : l.report = ({ l with carried := none } : Loop σ κ ρ).enqueue r := by
      rw [Loop.report, carried]
    have hl : l.ranks = (r.process.rank + 1) ::ₘ Loop.ranks { l with carried := none } := by
      simp only [Loop.ranks, carried, Option.toList, List.map_cons, List.map_nil, ← cons_coe, coe_nil,
        add_cons, cons_add]
    rw [hr, Loop.ranks_enqueue, hl]
    exact cons_lt_cons hlt _

/-- **Nothing goes on forever.** Where no process starts tasks, every course comes to rest. -/
theorem acc_goes (hc : c.loop.Childless) : Acc (fun d c => Goes body c d) c := by
  have hacc : Acc IsDershowitzMannaLT c.loop.ranks := wellFounded_isDershowitzMannaLT.apply _
  generalize hm : c.loop.ranks = m at hacc
  induction hacc generalizing c with
  | intro m _ ih =>
    apply Acc.intro c
    intro d hd
    exact ih d.loop.ranks (hm ▸ hd.ranks_lt hc) (hd.childless hc) rfl

end Course

end LanguageUsage
