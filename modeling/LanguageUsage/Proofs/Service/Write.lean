import LanguageUsage.Proofs.Service.Call
import LanguageUsage.Proofs.Service.Stage

/-!
# One write after another

A request to count is over at once, unless it passes the check and the store is an open database: then it waits for
the right to write, and makes its change while nobody else makes one.

* `World.frame`: what no change of a database touches;
* `World.writeTerms`: on which terms a change is made;
* `Work.writeInTurn`, `Work.leads_writeInTurn`: the change, by one who has the right to write;
* `Loop.resume_upsert_memory`, `Loop.resume_upsert_error`, `Loop.resume_upsert_ok`: how a request begins.
-/

namespace LanguageUsage

/-- A store without the rows of a database. -/
def Store.frame : Store → Store
  | .memory s => .memory s
  | .database s => .database { s with medium := .foreign }

namespace World

variable {w v : World} {n : Nat} {i : Increment}

/-- The state without the rows of a database, and without a change that is not committed. -/
def frame (w : World) : World := { w.withStore w.store.frame with unsaved := none }

theorem frame_withStore {s : Store} (hs : s.frame = w.store.frame) : (w.withStore s).frame = w.frame := by
  simp only [frame, store_withStore, withStore_withStore, hs]

theorem frame_saved (unsaved : Option (Nat × Medium)) (w : World) : { w with unsaved := unsaved }.frame = w.frame := rfl

theorem frame_onDatabase {f : DatabaseStore → DatabaseStore}
    (hf : ∀ s, (Store.database (f s)).frame = (Store.database s).frame) : (w.onDatabase f).frame = w.frame := by
  unfold onDatabase
  split
  · next s hs => exact frame_withStore (hs ▸ hf s)
  · rfl

theorem frame_takeBack (n : Nat) (w : World) : (w.takeBack n).frame = w.frame := by
  unfold takeBack
  split
  · split
    · rw [frame_saved]
      exact frame_onDatabase fun _ => rfl
    · rfl
  · rfl

theorem frame_insert (n : Nat) (i : Increment) (w : World) : (World.insert n i w).1.frame = w.frame := by
  unfold World.insert
  split
  · next s hs hlink =>
    cases hadd : s.medium.add i with
    | mk m r =>
      cases r with
      | ok c => exact (frame_saved _ _).trans (frame_withStore (hs ▸ rfl))
      | error f => rfl
  · rfl
  · rfl

theorem frame_commit (n : Nat) (f : Fault) (w : World) : (World.commit n f w).1.frame = w.frame := by
  unfold World.commit
  split
  · exact frame_saved none w
  · rfl

theorem frame_rollBack (n : Nat) (w : World) : (World.rollBack n w).1.frame = w.frame := by
  unfold World.rollBack
  split
  · exact frame_takeBack n w
  · rfl

theorem link?_frame (w : World) : w.frame.link? = w.link? := by
  cases hs : w.store with
  | memory s =>
    have hframe : w.frame.store = .memory s := congrArg Store.frame hs
    rw [link?, link?, hs, hframe]
  | database s =>
    have hframe : w.frame.store = .database { s with medium := .foreign } := congrArg Store.frame hs
    rw [link?, link?, hs, hframe]
    rfl

/-- What is left the same if the frame is. -/
theorem eq_of_frame_eq (h : v.frame = w.frame) :
    v.calls = w.calls ∧ v.events = w.events ∧ v.links = w.links ∧ v.link? = w.link? :=
  ⟨show v.frame.calls = w.frame.calls by rw [h], show v.frame.events = w.frame.events by rw [h],
    show v.frame.links = w.frame.links by rw [h], by rw [← link?_frame, h, link?_frame]⟩

/-- On which terms a change is made: nobody else changes anything, and the change touches the rows only. -/
def writeTerms : Terms World where
  rely := Eq
  guarantee w v := v.frame = w.frame
  locks := []
  rely_refl _ := rfl
  rely_trans := Eq.trans
  guarantee_refl _ := rfl
  guarantee_trans := fun h h' => h'.trans h

end World

namespace Work

open World

variable {held : List Lock} {w : World} {n : Nat} {i : Increment} {s : DatabaseStore}

/-- A change by one who has the right to make it. -/
def writeInTurn (n : Nat) (i : Increment) : Work Number := do
  unlessEnded n .connectionClosed
  write n i

/-- An errand of a change. -/
theorem leads_later_writeTerms {α : Type} {post : List Lock → World → Except Fault α → Prop} {brief : World → Bool}
    {f : World → World × Except Fault α} (hf : (f w).1.frame = w.frame) (h : post held (f w).1 (f w).2) :
    (later brief f).run.Leads writeTerms post held w := by
  rw [leads_later]
  rintro _ rfl
  refine ⟨hf, ?_⟩
  rintro _ rfl
  exact h

/-- A change that is made is committed. -/
theorem leads_insert_writeTerms {post : List Lock → World → Except Fault Number → Prop} (hs : w.store = .database s)
    (hw : w.Quiet) (hlive : w.link n = .live)
    (h : post held (w.withStore (.database { s with medium := (s.medium.add i).1 })) (s.medium.add i).2) :
    (Work.insert n i).run.Leads writeTerms post held w := by
  refine (leads_bind _ _).2 (leads_later_writeTerms (frame_insert n i w) ?_)
  cases hadd : s.medium.add i with
  | mk m r =>
    rw [hadd] at h
    cases r with
    | error f =>
      have hinsert : World.insert n i w = (w, .error f) := by simp only [World.insert, hs, hlive, hadd]
      have hm : w.withStore (.database { s with medium := m }) = w := by
        rw [Medium.eq_of_add_error hadd]
        exact withStore_eq_self hs
      rw [hinsert]
      rwa [hm] at h
    | ok c =>
      let v : World := { w.withStore (.database { s with medium := m }) with unsaved := some (n, s.medium) }
      have hinsert : World.insert n i w = (v, .ok c) := by
        simp only [World.insert, hs, hlive, hadd]
        rfl
      have hv : v.link n = .live := hlive
      have hcommit : World.commit n (.cannotIncrement i.tag i.kind) v =
          (w.withStore (.database { s with medium := m }), .ok ()) := by
        have hsaved := hw.saved
        rw [World.commit, hv]
        simp only [v, World.withStore, ← hsaved]
      rw [hinsert]
      refine (leads_bind _ _).2 (leads_unlessEnded hv ((leads_bind _ _).2 ?_))
      refine leads_later_writeTerms (frame_commit _ _ _) ?_
      rw [hcommit]
      exact h

/-- **A change is made**, or the database refuses it and stays as it is. -/
theorem leads_writeInTurn {post : List Lock → World → Except Fault Number → Prop} (hs : w.store = .database s)
    (hw : w.Quiet) (hlive : w.link n = .live)
    (h : post held (w.withStore (.database { s with medium := (s.medium.add i).1 })) (s.medium.add i).2) :
    (writeInTurn n i).run.Leads writeTerms post held w := by
  refine (leads_bind _ _).2 (leads_unlessEnded hlive ((leads_tryCatch _ _).2 ?_))
  refine leads_insert_writeTerms hs hw hlive ?_
  cases hadd : s.medium.add i with
  | mk m r =>
    rw [hadd] at h
    cases r with
    | ok c => exact h
    | error f =>
      have hm : w.withStore (.database { s with medium := m }) = w := by
        rw [Medium.eq_of_add_error hadd]
        exact withStore_eq_self hs
      simp only [hm] at h ⊢
      -- only this fault is answered with a roll back
      by_cases hf : f = .cannotIncrement i.tag i.kind
      · have hback : World.rollBack n w = (w, .ok ()) := by
          simp only [World.rollBack, hlive, takeBack, hw.saved]
        simp only [if_pos hf]
        refine (leads_bind _ _).2 (leads_unlessEnded hlive ((leads_bind _ _).2 ?_))
        refine leads_later_writeTerms (frame_rollBack _ _) ?_
        rw [hback]
        exact h
      · simp only [if_neg hf]
        exact h

end Work

/-! ### How a request begins -/

/-- What is left to do for one who has made a change. -/
def handOn (r : Except Fault Number) : Activity := .release .writes (.done (r.map .count))

namespace Loop

variable {l : Loop World Task Completion} {t : Nat} {tag delta : Value} {kind : GivenKind}

/-- One who has the right to write needs no other lock. -/
theorem stops_writeTerms {α : Type} {post : List Lock → World → α → Prop} {fin : α → Activity} {held base : List Lock}
    (q : Process World Task Completion α) (hheld : l.held = held ++ base)
    (h : q.Leads World.writeTerms post held l.state) :
    Stops World.writeTerms post Task.activity t fin base l (resume Task.activity t (q.bind fin) l) :=
  stops_resume q (List.forall_mem_nil _) (fun _ _ => List.not_mem_nil) hheld h

theorem resume_look {α : Type} (f : World → α) (k : Except Fault α → Activity) :
    resume Task.activity t ((Work.look f).run.bind k) l = resume Task.activity t (k (.ok (f l.state))) l := rfl

theorem resume_upsert_memory {s : MemoryStore} (hs : l.state.store = .memory s) :
    resume Task.activity t (Operation.upsert tag kind delta).work.run l =
      finish { l with state := l.state.withStore (l.state.store.perform (.upsert tag kind delta)).1 } t
        (l.state.store.perform (.upsert tag kind delta)).2 := by
  have hlook : resume Task.activity t (Operation.upsert tag kind delta).work.run l =
      resume Task.activity t ((Work.atOnce fun w => (w.withStore (w.store.upsert tag kind delta).1,
        (w.store.upsert tag kind delta).2)).run.bind fun r => .done (Except.map Reply.count r)) l := by
    rw [Operation.work, Work.run_bind_pure, Work.upsert, Work.run_bind, Process.bind_bind, resume_look, hs]
  rw [hlook]
  rfl

theorem resume_upsert_error {s : DatabaseStore} {f : Fault} (hs : l.state.store = .database s)
    (hgiven : Increment.ofGiven tag kind delta = .error f) :
    resume Task.activity t (Operation.upsert tag kind delta).work.run l = l.finish t (.error f) := by
  rw [Operation.work, Work.run_bind_pure, Work.upsert, Work.run_bind, Process.bind_bind, resume_look, hs, hgiven]
  rfl

theorem resume_increment (i : Increment) (k : Except Fault Number → Activity) :
    resume Task.activity t ((Work.increment i).run.bind k) l = match l.state.link? with
      | .error f => resume Task.activity t (k (.error f)) l
      | .ok n => resume Task.activity t
          (.acquire .writes ((Work.writeInTurn n i).run.bind fun r => .release .writes (k r))) l := by
  rw [Work.increment, Work.run_bind, Work.link, Work.run_bind, Process.bind_bind, Process.bind_bind, resume_look]
  cases l.state.link? with
  | error f => rfl
  | ok n =>
    show resume Task.activity t (.acquire .writes
      (((Work.writeInTurn n i).run.bind fun r => .release .writes (.done r)).bind k)) l = _
    rw [Process.bind_bind]
    rfl

/-- A request that passes the check waits for the right to write, if there is somewhere to write to. -/
theorem resume_upsert_ok {s : DatabaseStore} {i : Increment} (hs : l.state.store = .database s)
    (hgiven : Increment.ofGiven tag kind delta = .ok i) :
    resume Task.activity t (Operation.upsert tag kind delta).work.run l = match l.state.link? with
      | .error f => l.finish t (.error f)
      | .ok n => resume Task.activity t (.acquire .writes ((Work.writeInTurn n i).run.bind handOn)) l := by
  have hlook : resume Task.activity t (Operation.upsert tag kind delta).work.run l =
      resume Task.activity t ((Work.increment i).run.bind fun r => .done (Except.map Reply.count r)) l := by
    rw [Operation.work, Work.run_bind_pure, Work.upsert, Work.run_bind, Process.bind_bind, resume_look, hs, hgiven]
    rfl
  rw [hlook, resume_increment]
  rfl

end Loop

end LanguageUsage
