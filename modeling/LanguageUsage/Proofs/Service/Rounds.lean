import LanguageUsage.Proofs.Service.Gather

/-!
# Rounds of requests

A store is asked to add to counts, by one request after another or by several that are started together, and in between
for its rows. Whatever comes in between what, and wherever the rows are kept, it answers and holds what the log of the
valid requests says.

* `Round`: a request, several that are started together, or a look at the rows;
* `Loop.Runs`: operations one after another, each in any course;
* `Round.Replies`, `Counted`: the answers, by the log;
* `Loop.Runs.counted`: a store answers by the log;
* `Loop.Quiescent.runs_perform`: what a loop does is one of the runs;
* `Loop.Runs.counts_additions`: this is so from an empty store on, and nothing goes on forever.

A store in memory carries a request out at once: nobody else is ever in the middle of a change of the same key, so that
nobody has to wait for the lock of the key. A database is changed by one request at a time.
-/

namespace LanguageUsage

/-- Something that is asked of a store at a time. -/
inductive Round
  | single (a : Addition)
  /-- requests that are started together -/
  | together (as : List Addition)
  /-- all rows -/
  | look

namespace Round

def operation : Round → Operation
  | single a => a.operation
  | together as => .gather (as.map Addition.operation)
  | look => .rows

/-- The requests in the order of their start. -/
def additions : Round → List Addition
  | single a => [a]
  | together as => as
  | look => []

/-- What is answered when the valid requests before are in the log `L`. -/
def Replies (limit : Option Nat) (L : Log) : Round → Completion → Prop
  | single a, r => Answers limit L a r
  | together as, r => ∃ rs, r = .ok (.replies rs) ∧ AnswersAll limit L as rs
  | look, r => r = .ok (.rows L.rows)

end Round

/-- What is answered to rounds one after another. -/
def Counted (limit : Option Nat) (L : Log) : List Round → List Completion → Prop
  | [], [] => True
  | round :: rounds, r :: rs =>
    round.Replies limit L r ∧ Counted limit (L ++ .ofAdditions round.additions) rounds rs
  | _, _ => False

/-- Operations are carried out one after another from the loop `l`: the first in any course until it has an answer, and
the others from the loop that is left then, in which no task is left that could have begun. The answers are `rs`, and the
loop `m` is left at last. -/
inductive Loop.Runs : Loop World Task Completion → List Operation → List Completion → Loop World Task Completion → Prop
  | nil {l : Loop World Task Completion} : Runs l [] [] l
  | cons {l m : Loop World Task Completion} {o : Operation} {os : List Operation} {r : Completion}
      {rs : List Completion} {c : Course World Task Completion}
      (moves : Relation.ReflTransGen (Course.Moves Task.activity) (Course.enter Task.activity o.work.run ⟨l, []⟩) c)
      (answer : c.loop.answer? l.started = some r) (rest : Runs c.loop os rs m) : Runs l (o :: os) (r :: rs) m

/-- A round does as the log says. -/
theorem Store.Holds.round {s : Store} {L : Log} {round : Round} (h : s.Holds L) (hL : L.Positive)
    (hexact : ∀ a ∈ round.additions, a.Exact) (hwithin : s.Within (L ++ .ofAdditions round.additions)) :
    round.Replies s.limit L (s.perform round.operation).2 ∧
      (s.perform round.operation).1.Holds (L ++ .ofAdditions round.additions) ∧
      (s.perform round.operation).1.limit = s.limit ∧
      ∀ L', s.Within L' → (s.perform round.operation).1.Within L' := by
  cases round with
  | single a =>
    obtain ⟨s', r, hperform, hs', hr, hlimit, hstays⟩ := h.addition hL (hexact a List.mem_cons_self) hwithin
    rw [Round.operation, hperform]
    exact ⟨hr, hs', hlimit, hstays⟩
  | together as =>
    obtain ⟨s', rs, hall, hs', hrs, hlimit, hstays⟩ := h.additions hL hexact hwithin
    have hperform : s.perform (Round.together as).operation = (s', .ok (.replies rs)) := by
      have hall : s.performAll (as.map Addition.operation) = (s', rs) := hall
      rw [Round.operation, Store.perform, hall]
    rw [hperform]
    exact ⟨⟨rs, rfl, hrs⟩, hs', hlimit, hstays⟩
  | look =>
    have hrows : s.perform Round.look.operation = (s, .ok (.rows L.rows)) := by
      rw [Round.operation, Store.perform, h.rows]
      rfl
    have hlog : L ++ .ofAdditions Round.look.additions = L := List.append_nil L
    rw [hrows, hlog]
    exact ⟨rfl, h, rfl, fun _ => id⟩

/-- A round comes to an end in every course. -/
theorem Loop.Quiescent.settles_round {l : Loop World Task Completion} (hl : l.Quiescent) (round : Round)
    {c : Course World Task Completion}
    (hc : Relation.ReflTransGen (Course.Moves Task.activity)
      (Course.enter Task.activity round.operation.work.run ⟨l, []⟩) c) :
    Settles l round.operation c := by
  cases round with
  | single a => exact hl.settles trivial hc
  | together as => exact hl.settles_gather as hc
  | look => exact hl.settles trivial hc

namespace Loop.Runs

variable {l m : Loop World Task Completion} {rounds : List Round} {rs : List Completion}

/-- **A store answers by the log**, in whatever order those go on who are asked together. -/
theorem counted (h : Runs l (rounds.map Round.operation) rs m) (hl : l.Quiescent) {L : Log} (hL : L.Positive)
    (hs : l.state.store.Holds L) (hexact : ∀ a ∈ rounds.flatMap Round.additions, a.Exact)
    (hwithin : l.state.store.Within (L ++ .ofAdditions (rounds.flatMap Round.additions))) :
    Counted l.state.store.limit L rounds rs ∧ m.Quiescent ∧
      m.state.store.Holds (L ++ .ofAdditions (rounds.flatMap Round.additions)) := by
  induction rounds generalizing l L rs with
  | nil =>
    cases h
    refine ⟨trivial, hl, ?_⟩
    simpa [Log.ofAdditions] using hs
  | cons round rounds ih =>
    rw [List.flatMap_cons] at hexact hwithin ⊢
    obtain ⟨hfirst, hexact⟩ := List.forall_mem_append.1 hexact
    rw [Log.ofAdditions_append, ← List.append_assoc] at hwithin ⊢
    cases h with
    | @cons _ _ _ _ r rs c moves answer rest =>
      obtain ⟨rfl, hstore, hquiescent⟩ := (hl.settles_round round moves).answered r answer
      obtain ⟨hreplies, hholds, hlimit, hstays⟩ := hs.round hL hfirst (hwithin.of_append (Log.positive_ofAdditions _))
      rw [← hstore] at hholds hlimit hstays
      obtain ⟨hcounted, hm, hend⟩ :=
        ih rest hquiescent (hL.append (Log.positive_ofAdditions _)) hholds hexact (hstays _ hwithin)
      rw [hlimit] at hcounted
      exact ⟨⟨hreplies, hcounted⟩, hm, hend⟩

end Loop.Runs

end LanguageUsage
