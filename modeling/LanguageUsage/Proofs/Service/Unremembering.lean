import LanguageUsage.Proofs.Ingest.Capacity
import LanguageUsage.Proofs.Schedule.Guarded
import LanguageUsage.Proofs.Service.Call
import LanguageUsage.Service.Step

/-!
# Work that leaves the memory alone

What an updater remembers belongs to the one whose call is performed. Everything else that a service does leaves it
alone: the operations on the store, the detections and increments, and all steps, except for the calls that these
submit.

* `World.recalled`: what is remembered, and by which settings; `World.note`: a time is remembered;
* `World.Advances`, `World.memoryGuard`: what the one whose call is performed may do;
* `Work.SparesMemory`: work that leaves the memory alone, with a lemma for each way to build work;
* `Operation.sparesMemory_work`, `Step.sparesMemory_work`: operations and steps.
-/

namespace LanguageUsage

namespace World

/-- What is remembered, and by which settings. -/
def recalled (w : World) : Policy × ReplayMemory := (w.updater.policy, w.updater.memory)

/-- A time is remembered for a notification. -/
def note (key : Value) (t : Int) (w : World) : World := { w with updater := (w.updater.remember key (some t)).1 }

/-- A change leaves what is remembered as it is, or notes a time that is newer than the one it replaces. -/
structure Advances (change : World → World) (w : World) : Prop where
  policy : (change w).updater.policy = w.updater.policy
  memory : (change w).updater.memory = w.updater.memory ∨ ∃ key t, change = note key t
  newer : ∀ key t, change = note key t → w.updater.suppresses = true →
    ∀ last, w.updater.memory.get? key = some last → last < t

/-- The memory is guarded by the right to perform a call. -/
def memoryGuard : Guard World (Policy × ReplayMemory) := ⟨.calls, recalled, Advances⟩

/-- A service that remembers one notification at most, and none yet. -/
def forgetful : World :=
  { updater := { store := .memory {}, policy := { suppressReplays := .bool true, capacity := .whole 1 } } }

theorem memory_note_forgetful (key : Value) (t : Int) : (note key t forgetful).updater.memory = [(key, t)] := by
  have hcapacity : forgetful.updater.policy.capacity.number? = some (.whole 1) := rfl
  rw [note, Updater.remember_eq_rtake rfl hcapacity]
  rfl

/-- One can tell from what it does which time is noted. -/
theorem note_injective {key key' : Value} {t t' : Int} (h : note key t = note key' t') : key = key' ∧ t = t' := by
  have hsame : [(key, t)] = [(key', t')] := by
    rw [← memory_note_forgetful, ← memory_note_forgetful, h]
  simpa using hsame

/-- What leaves the memory alone does not note a time. -/
theorem ne_note_of_recalled {change : World → World} (h : ∀ w, (change w).recalled = w.recalled) (key : Value)
    (t : Int) : change ≠ note key t := by
  rintro rfl
  have hmemory : (note key t forgetful).updater.memory = forgetful.updater.memory := (Prod.mk.inj (h forgetful)).2
  rw [memory_note_forgetful] at hmemory
  cases hmemory

theorem spares_of_recalled {change : World → World} (h : ∀ w, (change w).recalled = w.recalled) :
    memoryGuard.Spares change := by
  intro w
  refine ⟨h w, congrArg Prod.fst (h w), .inl (congrArg Prod.snd (h w)), fun key t hnote => ?_⟩
  exact absurd hnote (ne_note_of_recalled h key t)

section recalled

variable (w : World) (n : Nat)

theorem recalled_onDatabase (f : DatabaseStore → DatabaseStore) : (w.onDatabase f).recalled = w.recalled := by
  unfold onDatabase
  split <;> rfl

theorem recalled_takeBack : (w.takeBack n).recalled = w.recalled := by
  unfold takeBack
  split
  · split
    · exact recalled_onDatabase w _
    · rfl
  · rfl

theorem recalled_openLink : w.openLink.1.recalled = w.recalled := by
  unfold openLink
  split
  · rfl
  · split <;> rfl

theorem recalled_prepare : (w.prepare n).1.recalled = w.recalled := by
  unfold prepare
  split <;> rfl

theorem recalled_shut : (w.shut n).1.recalled = w.recalled := (recalled_onDatabase _ _).trans (recalled_takeBack w n)

theorem recalled_insert (i : Increment) : (insert n i w).1.recalled = w.recalled := by
  unfold insert
  split
  · split <;> rfl
  · rfl
  · rfl

theorem recalled_commit (f : Fault) : (commit n f w).1.recalled = w.recalled := by
  unfold commit
  split <;> rfl

theorem recalled_rollBack : (rollBack n w).1.recalled = w.recalled := by
  unfold rollBack
  split
  · exact recalled_takeBack w n
  · rfl

theorem recalled_select (q : Query) : (select n q w).1.recalled = w.recalled := by
  unfold select
  split <;> rfl

end recalled

end World

namespace Work

open World

variable {α β : Type} {x : Work α}

/-- Work that has nothing to do with what is remembered. -/
def SparesMemory (x : Work α) : Prop := x.run.Abstains memoryGuard

/-! ### Ways to build work -/

theorem sparesMemory_pure (a : α) : (pure a : Work α).SparesMemory := trivial

theorem sparesMemory_throw (f : Fault) : (throw f : Work α).SparesMemory := trivial

theorem sparesMemory_given (r : Except Fault α) : (given r).SparesMemory := trivial

theorem sparesMemory_bind {f : α → Work β} (hx : x.SparesMemory) (hf : ∀ a, (f a).SparesMemory) :
    (x >>= f).SparesMemory :=
  Process.Abstains.bind hx (by rintro (e | a); exacts [trivial, hf a])

theorem sparesMemory_tryCatch {f : Fault → Work α} (hx : x.SparesMemory) (hf : ∀ e, (f e).SparesMemory) :
    (tryCatch x f).SparesMemory :=
  Process.Abstains.bind hx (by rintro (e | a); exacts [hf e, trivial])

theorem sparesMemory_discard (hx : x.SparesMemory) : (discard x : Work Unit).SparesMemory :=
  Process.Abstains.bind hx (by rintro (e | a) <;> trivial)

theorem sparesMemory_look (f : World → α) : (look f).SparesMemory := ⟨spares_of_recalled fun _ => rfl, fun _ => trivial⟩

theorem sparesMemory_atOnce {f : World → World × Except Fault α} (h : ∀ w, (f w).1.recalled = w.recalled) :
    (atOnce f).SparesMemory := ⟨spares_of_recalled h, fun _ => trivial⟩

theorem sparesMemory_change {f : World → World} (h : ∀ w, (f w).recalled = w.recalled) : (change f).SparesMemory :=
  ⟨spares_of_recalled h, fun _ => trivial⟩

theorem sparesMemory_later {brief : World → Bool} {f : World → World × Except Fault α}
    (h : ∀ w, (f w).1.recalled = w.recalled) : (later brief f).SparesMemory := ⟨spares_of_recalled h, fun _ => trivial⟩

theorem sparesMemory_rest : rest.SparesMemory := trivial

theorem sparesMemory_launch (t : Task) : (launch t).SparesMemory := fun _ => trivial

theorem sparesMemory_gather (tasks : List Nat) : (gather tasks).SparesMemory := fun _ => trivial

theorem sparesMemory_await (task : Nat) : (await task).SparesMemory := fun _ => trivial

/-- Changes of a database are made under a lock of their own. -/
theorem sparesMemory_holding_writes (hx : x.SparesMemory) : (holding .writes x).SparesMemory :=
  ⟨nofun, Process.Abstains.bind hx fun _ => ⟨nofun, trivial⟩⟩

/-! ### Operations on the store -/

theorem sparesMemory_link : link.SparesMemory :=
  sparesMemory_bind (sparesMemory_look _) fun _ => sparesMemory_given _

theorem sparesMemory_unlessEnded (n : Nat) (f : Fault) : (unlessEnded n f).SparesMemory := by
  refine sparesMemory_bind (sparesMemory_look _) fun ended => ?_
  cases ended
  · exact sparesMemory_pure ()
  · exact sparesMemory_throw f

theorem sparesMemory_openDatabase (path : String) : (openDatabase path).SparesMemory := by
  refine sparesMemory_bind (sparesMemory_later recalled_openLink) fun _ => ?_
  refine sparesMemory_bind (sparesMemory_change fun w => recalled_onDatabase w _) fun _ => ?_
  refine sparesMemory_bind sparesMemory_link fun n => ?_
  refine sparesMemory_bind (sparesMemory_later fun w => recalled_prepare w n) fun _ => ?_
  refine sparesMemory_bind sparesMemory_link fun n => ?_
  exact sparesMemory_later fun w => recalled_commit w n _

theorem sparesMemory_connect : connect.SparesMemory := by
  refine sparesMemory_bind (sparesMemory_look _) fun s => ?_
  cases s with
  | memory s => exact sparesMemory_pure ()
  | database s =>
    by_cases hs : s.connected = true
    · simp only [if_pos hs]
      exact sparesMemory_pure ()
    · simp only [if_neg hs]
      exact sparesMemory_openDatabase s.path

theorem sparesMemory_close : close.SparesMemory := by
  refine sparesMemory_bind (sparesMemory_look _) fun r => ?_
  cases r with
  | error f => exact sparesMemory_pure ()
  | ok n =>
    refine sparesMemory_bind (sparesMemory_later fun w => recalled_shut w n) fun _ => ?_
    exact sparesMemory_change fun w => recalled_onDatabase w _

theorem sparesMemory_insert (n : Nat) (i : Increment) : (insert n i).SparesMemory := by
  refine sparesMemory_bind (sparesMemory_later fun w => recalled_insert w n i) fun count => ?_
  refine sparesMemory_bind (sparesMemory_unlessEnded _ _) fun _ => ?_
  exact sparesMemory_bind (sparesMemory_later fun w => recalled_commit w n _) fun _ => sparesMemory_pure count

theorem sparesMemory_write (n : Nat) (i : Increment) : (write n i).SparesMemory := by
  refine sparesMemory_tryCatch (sparesMemory_insert n i) fun f => ?_
  by_cases hf : f = .cannotIncrement i.tag i.kind
  · simp only [if_pos hf]
    refine sparesMemory_bind (sparesMemory_unlessEnded _ _) fun _ => ?_
    exact sparesMemory_bind (sparesMemory_later fun w => recalled_rollBack w n) fun _ => sparesMemory_throw f
  · simp only [if_neg hf]
    exact sparesMemory_throw f

theorem sparesMemory_upsert (tag : Value) (kind : GivenKind) (delta : Value) :
    (upsert tag kind delta).SparesMemory := by
  refine sparesMemory_bind (sparesMemory_look _) fun s => ?_
  cases s with
  | memory s => exact sparesMemory_atOnce fun _ => rfl
  | database s =>
    refine sparesMemory_bind (sparesMemory_given _) fun i => sparesMemory_bind sparesMemory_link fun n => ?_
    exact sparesMemory_holding_writes (sparesMemory_bind (sparesMemory_unlessEnded _ _) fun _ => sparesMemory_write n i)

theorem sparesMemory_select (q : Query) : (select q).SparesMemory :=
  sparesMemory_bind sparesMemory_link fun n => sparesMemory_later fun w => recalled_select w n q

theorem sparesMemory_rows : rows.SparesMemory := by
  refine sparesMemory_bind (sparesMemory_look _) fun s => ?_
  cases s with
  | memory s => exact sparesMemory_pure _
  | database s => exact sparesMemory_select .all

theorem sparesMemory_get (tag : Value) (kind : GivenKind) : (get tag kind).SparesMemory := by
  refine sparesMemory_bind (sparesMemory_look _) fun s => ?_
  cases s with
  | memory s => exact sparesMemory_pure _
  | database s =>
    refine sparesMemory_bind (sparesMemory_given _) fun q => ?_
    exact sparesMemory_bind (sparesMemory_select q) fun _ => sparesMemory_pure _

theorem sparesMemory_byKind (kind : GivenKind) : (byKind kind).SparesMemory := by
  refine sparesMemory_bind (sparesMemory_look _) fun s => ?_
  cases s with
  | memory s => exact sparesMemory_pure _
  | database s => exact sparesMemory_bind (sparesMemory_given _) sparesMemory_select

theorem sparesMemory_usage (kind : GivenKind) : (usage kind).SparesMemory :=
  sparesMemory_bind (sparesMemory_byKind kind) fun _ => sparesMemory_given _

theorem sparesMemory_frequent (kind : GivenKind) (minShare : Value) : (frequent kind minShare).SparesMemory :=
  sparesMemory_bind (sparesMemory_given _) fun _ =>
    sparesMemory_bind (sparesMemory_usage kind) fun _ => sparesMemory_pure _

theorem sparesMemory_startAll (os : List Operation) : (startAll os).SparesMemory := by
  induction os with
  | nil => exact sparesMemory_pure []
  | cons o os ih =>
    exact sparesMemory_bind (sparesMemory_launch _) fun _ => sparesMemory_bind ih fun _ => sparesMemory_pure _

/-! ### Detections and increments -/

theorem sparesMemory_ask (d : Detector) (text : String) : (ask d text).SparesMemory := by
  have hask : (do change (·.log (.consulted text)); given (d.answer text).tags : Work (List Value)).SparesMemory :=
    sparesMemory_bind (sparesMemory_change fun _ => rfl) fun _ => sparesMemory_given _
  unfold ask
  by_cases hp : d.pausing = true
  · simp only [if_pos hp]
    exact sparesMemory_bind sparesMemory_rest fun _ => hask
  · simp only [if_neg hp]
    exact hask

theorem sparesMemory_consult (d : Detector) (texts : List String) : (consult d texts).SparesMemory := by
  induction texts with
  | nil => exact sparesMemory_pure []
  | cons t ts ih =>
    exact sparesMemory_bind (sparesMemory_ask d t) fun _ => sparesMemory_bind ih fun _ => sparesMemory_pure _

theorem sparesMemory_incrementEach (kind : SignalKind) (tags : List String) :
    (incrementEach kind tags).SparesMemory := by
  induction tags with
  | nil => exact sparesMemory_pure ()
  | cons t ts ih =>
    refine sparesMemory_bind (sparesMemory_change fun _ => rfl) fun _ => ?_
    exact sparesMemory_bind (sparesMemory_discard (sparesMemory_upsert _ _ _)) fun _ => ih

theorem sparesMemory_classify (tags : List Value) : (classify tags).SparesMemory :=
  sparesMemory_bind (sparesMemory_given _) fun _ => sparesMemory_incrementEach _ _

/-! ### Submission -/

theorem sparesMemory_submit (c : Except Fault Call) : (submit c).SparesMemory := by
  refine sparesMemory_bind (sparesMemory_given c) fun c => sparesMemory_bind (sparesMemory_launch _) fun n => ?_
  exact sparesMemory_bind (sparesMemory_change fun _ => rfl) fun _ => sparesMemory_pure n

theorem sparesMemory_submitAll (cs : List (Except Fault Call)) : (submitAll cs).SparesMemory := by
  induction cs with
  | nil => exact sparesMemory_pure []
  | cons c cs ih =>
    exact sparesMemory_bind (sparesMemory_submit c) fun _ => sparesMemory_bind ih fun _ => sparesMemory_pure _

theorem sparesMemory_awaitEach (tasks : List Nat) : (awaitEach tasks).SparesMemory := by
  induction tasks with
  | nil => exact sparesMemory_pure []
  | cons t ts ih =>
    exact sparesMemory_bind (sparesMemory_await t) fun _ => sparesMemory_bind ih fun _ => sparesMemory_pure _

end Work

namespace Operation

open Work

mutual

theorem sparesMemory_work : (o : Operation) → o.work.SparesMemory
  | .connect => sparesMemory_bind sparesMemory_connect fun _ => sparesMemory_pure _
  | .close => sparesMemory_bind sparesMemory_close fun _ => sparesMemory_pure _
  | .upsert tag kind delta => sparesMemory_bind (sparesMemory_upsert tag kind delta) fun _ => sparesMemory_pure _
  | .get tag kind => sparesMemory_bind (sparesMemory_get tag kind) fun _ => sparesMemory_pure _
  | .rows => sparesMemory_bind sparesMemory_rows fun _ => sparesMemory_pure _
  | .byKind kind => sparesMemory_bind (sparesMemory_byKind kind) fun _ => sparesMemory_pure _
  | .usage kind => sparesMemory_bind (sparesMemory_usage kind) fun _ => sparesMemory_pure _
  | .frequent kind minShare => sparesMemory_bind (sparesMemory_frequent kind minShare) fun _ => sparesMemory_pure _
  | .gather operations =>
    sparesMemory_bind (sparesMemory_startAll operations) fun _ =>
      sparesMemory_bind (sparesMemory_gather _) fun _ => sparesMemory_pure _
  | .session operations =>
    sparesMemory_bind sparesMemory_connect fun _ =>
      sparesMemory_bind (Process.Abstains.bind (abstains_workInTurn operations) fun _ => trivial) fun _ =>
        sparesMemory_bind sparesMemory_close fun _ => sparesMemory_pure _

theorem abstains_workInTurn : (os : List Operation) → (workInTurn os).Abstains World.memoryGuard
  | [] => trivial
  | o :: os => Process.Abstains.bind (sparesMemory_work o) fun _ =>
      Process.Abstains.bind (abstains_workInTurn os) fun _ => trivial

end

end Operation

/-- No step changes what is remembered, except by the calls that it submits. -/
theorem Step.sparesMemory_work (s : Step) : s.work.SparesMemory := by
  open Work in
  cases s with
  | operation o => exact o.sparesMemory_work
  | submit c => exact sparesMemory_bind (sparesMemory_discard (sparesMemory_submit c)) fun _ => sparesMemory_pure _
  | call c =>
    refine sparesMemory_bind (sparesMemory_submit c) fun n => sparesMemory_bind (sparesMemory_await n) fun r => ?_
    cases r with
    | some r => exact sparesMemory_given r
    | none => exact sparesMemory_pure _
  | batch cs =>
    refine sparesMemory_bind (sparesMemory_submitAll cs) fun ns => ?_
    exact sparesMemory_bind (sparesMemory_awaitEach ns) fun _ => sparesMemory_pure _
  | settle =>
    refine sparesMemory_bind (sparesMemory_look _) fun ns => ?_
    exact sparesMemory_bind (sparesMemory_discard (sparesMemory_gather ns)) fun _ => sparesMemory_pure _

end LanguageUsage
