import LanguageUsage.Proofs.Schedule.Leads
import LanguageUsage.Proofs.Schedule.Rest
import LanguageUsage.Service.World

/-!
# Rules for work that may fail

For each way to build work on the state of a service, when it leads to an end (`leads_…`) and that it
starts no tasks (`childless_…`). With these rules no work has to be unfolded to its process.
-/

namespace LanguageUsage

namespace Work

variable {α β : Type} {T : Terms World} {held : List Lock} {w : World}
  {post : List Lock → World → Except Fault α → Prop}

/-- Work is done up to the first fault. -/
theorem run_bind (x : Work α) (f : α → Work β) :
    (x >>= f).run = x.run.bind fun r => match r with
      | .ok a => (f a).run
      | .error e => .done (.error e) := by
  show x.run.bind _ = x.run.bind _
  congr 1
  funext r
  cases r <;> rfl

theorem run_bind_given (x : Work α) (f : α → Except Fault β) :
    (x >>= fun a => given (f a)).run = x.run.bind fun r => .done (r.bind f) := by
  rw [run_bind]
  congr 1
  funext r
  cases r <;> rfl

theorem run_bind_pure (x : Work α) (f : α → β) :
    (x >>= fun a => pure (f a)).run = x.run.bind fun r => .done (r.map f) := by
  rw [run_bind]
  congr 1
  funext r
  cases r <;> rfl

/-! ### What work leads to -/

section Leads

theorem leads_given (r : Except Fault α) :
    (given r).run.Leads T post held w ↔ post held w r := .rfl

theorem leads_bind {post : List Lock → World → Except Fault β → Prop} (x : Work α)
    (f : α → Work β) :
    (x >>= f).run.Leads T post held w ↔
      x.run.Leads T (fun held w r => match r with
        | .ok a => (f a).run.Leads T post held w
        | .error e => post held w (.error e)) held w := by
  have hpost : (fun held w r => (ExceptT.bindCont f r).Leads T post held w) =
      fun held w r => match r with
        | .ok a => (f a).run.Leads T post held w
        | .error e => post held w (.error e) := by
    funext held w r
    cases r <;> rfl
  rw [← hpost]
  exact Process.leads_bind x.run _

theorem leads_bind_given {post : List Lock → World → Except Fault β → Prop} (x : Work α)
    (f : α → Except Fault β) :
    (x >>= fun a => given (f a)).run.Leads T post held w ↔
      x.run.Leads T (fun held w r => post held w (r.bind f)) held w := by
  rw [run_bind_given]
  exact Process.leads_bind x.run _

theorem leads_bind_pure {post : List Lock → World → Except Fault β → Prop} (x : Work α) (f : α → β) :
    (x >>= fun a => pure (f a)).run.Leads T post held w ↔
      x.run.Leads T (fun held w r => post held w (r.map f)) held w := by
  rw [run_bind_pure]
  exact Process.leads_bind x.run _

theorem leads_tryCatch (x : Work α) (f : Fault → Work α) :
    (tryCatch x f).run.Leads T post held w ↔
      x.run.Leads T (fun held w r => match r with
        | .ok a => post held w (.ok a)
        | .error e => (f e).run.Leads T post held w) held w := by
  let handle : Except Fault α → Process World Task Completion (Except Fault α)
    | .ok a => .done (.ok a)
    | .error e => (f e).run
  have hpost : (fun held w r => (handle r).Leads T post held w) =
      fun held w r => match r with
        | .ok a => post held w (.ok a)
        | .error e => (f e).run.Leads T post held w := by
    funext held w r
    cases r <;> rfl
  have hrun : (tryCatch x f).run = x.run.bind handle := by
    show x.run.bind _ = x.run.bind handle
    congr 1
    funext r
    cases r <;> rfl
  rw [← hpost, hrun]
  exact Process.leads_bind x.run handle

theorem leads_discard {post : List Lock → World → Except Fault Unit → Prop} (x : Work α) :
    (discard x : Work Unit).run.Leads T post held w ↔
      x.run.Leads T (fun held w r => post held w (r.map fun _ => ())) held w := by
  let forget : Except Fault α → Process World Task Completion (Except Fault Unit) :=
    fun r => .done (r.map fun _ => ())
  have hrun : (discard x : Work Unit).run = x.run.bind forget := by
    show x.run.bind _ = x.run.bind forget
    congr 1
    funext r
    cases r <;> rfl
  rw [hrun]
  exact Process.leads_bind x.run forget

theorem leads_look (f : World → α) :
    (look f).run.Leads T post held w ↔ post held w (.ok (f w)) :=
  ⟨And.right, fun h => ⟨T.guarantee_refl w, h⟩⟩

theorem leads_atOnce (f : World → World × Except Fault α) :
    (atOnce f).run.Leads T post held w ↔ T.guarantee w (f w).1 ∧ post held (f w).1 (f w).2 := .rfl

theorem leads_change {post : List Lock → World → Except Fault Unit → Prop}
    (f : World → World) :
    (change f).run.Leads T post held w ↔ T.guarantee w (f w) ∧ post held (f w) (.ok ()) := .rfl

theorem leads_later (brief : World → Bool) (f : World → World × Except Fault α) :
    (later brief f).run.Leads T post held w ↔
      ∀ v, T.rely w v → T.guarantee v (f v).1 ∧ ∀ u, T.rely (f v).1 u → post held u (f v).2 := .rfl

theorem leads_rest {post : List Lock → World → Except Fault Unit → Prop} :
    rest.run.Leads T post held w ↔ ∀ v, T.rely w v → post held v (.ok ()) := .rfl

theorem leads_holding (lock : Lock) (x : Work α) :
    (holding lock x).run.Leads T post held w ↔
      lock ∈ T.locks ∧ lock ∉ held ∧
        x.run.Leads T (fun held w r => lock ∈ T.locks ∧ lock ∈ held ∧ post (held.erase lock) w r)
          (lock :: held) w :=
  and_congr_right fun _ => and_congr_right fun _ => Process.leads_bind x.run _

end Leads

/-! ### Work that starts no tasks -/

section Childless

theorem childless_pure (a : α) : (pure a : Work α).run.Childless := trivial

theorem childless_throw (f : Fault) : (throw f : Work α).run.Childless := trivial

theorem childless_given (r : Except Fault α) : (given r).run.Childless := trivial

theorem childless_bind {x : Work α} {f : α → Work β} (hx : x.run.Childless)
    (hf : ∀ a, (f a).run.Childless) : (x >>= f).run.Childless :=
  Process.Childless.bind hx (by rintro (e | a); exacts [trivial, hf a])

theorem childless_tryCatch {x : Work α} {f : Fault → Work α} (hx : x.run.Childless)
    (hf : ∀ e, (f e).run.Childless) : (tryCatch x f).run.Childless :=
  Process.Childless.bind hx (by rintro (e | a); exacts [hf e, trivial])

theorem childless_discard {x : Work α} (hx : x.run.Childless) :
    (discard x : Work Unit).run.Childless :=
  Process.Childless.bind hx (by rintro (e | a) <;> trivial)

theorem childless_look (f : World → α) : (look f).run.Childless := fun _ => trivial

theorem childless_atOnce (f : World → World × Except Fault α) :
    (atOnce f).run.Childless := fun _ => trivial

theorem childless_change (f : World → World) : (change f).run.Childless := fun _ => trivial

theorem childless_later (brief : World → Bool) (f : World → World × Except Fault α) :
    (later brief f).run.Childless := fun _ => trivial

theorem childless_rest : rest.run.Childless := trivial

theorem childless_holding {lock : Lock} {x : Work α} (hx : x.run.Childless) :
    (holding lock x).run.Childless :=
  Process.Childless.bind hx fun _ => trivial

end Childless

end Work

end LanguageUsage
