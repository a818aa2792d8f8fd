import LanguageUsage.Proofs.Ingest.Runs
import LanguageUsage.Service.World
import Mathlib.Data.List.Induction

/-!
# Quiet states

Between two calls no change of the store is under way. What a call does to a state is what it does to the
updater, and what it asked of others.

* `World.withCalls`, `World.logAll`, `World.after`, `World.afterAll`: the state after others submitted calls,
  after something was asked, after a call, after several;
* `World.Quiet`: a state in which nobody changes the store;
* `World.Quiet.perform`: a call leaves such a state.
-/

namespace LanguageUsage

namespace World

variable {w : World} {n : Nat}

/-- The state after other calls were submitted. -/
def withCalls (w : World) (calls : List Nat) : World := { w with calls := calls }

section withCalls

variable (calls calls' : List Nat)

@[simp] theorem withCalls_self : w.withCalls w.calls = w := rfl

@[simp] theorem withCalls_withCalls : (w.withCalls calls).withCalls calls' = w.withCalls calls' := rfl

@[simp] theorem calls_withCalls : (w.withCalls calls).calls = calls := rfl

@[simp] theorem updater_withCalls : (w.withCalls calls).updater = w.updater := rfl

@[simp] theorem store_withCalls : (w.withCalls calls).store = w.store := rfl

@[simp] theorem events_withCalls : (w.withCalls calls).events = w.events := rfl

@[simp] theorem link_withCalls : (w.withCalls calls).link n = w.link n := rfl

@[simp] theorem link?_withCalls : (w.withCalls calls).link? = w.link? := rfl

@[simp] theorem unsaved_withCalls : (w.withCalls calls).unsaved = w.unsaved := rfl

@[simp] theorem withStore_withCalls (s : Store) :
    (w.withCalls calls).withStore s = (w.withStore s).withCalls calls := rfl

@[simp] theorem log_withCalls (e : Event) : (w.withCalls calls).log e = (w.log e).withCalls calls := rfl

end withCalls

@[simp] theorem withStore_store : w.withStore w.store = w := rfl

theorem withStore_eq_self {s : Store} (h : w.store = s) : w.withStore s = w := by
  rw [← h, withStore_store]

/-- Note several things that were asked of others. -/
def logAll (w : World) (es : List Event) : World := { w with events := w.events ++ es }

@[simp] theorem logAll_nil : w.logAll [] = w := by
  simp [logAll]

@[simp] theorem logAll_logAll (es es' : List Event) : (w.logAll es).logAll es' = w.logAll (es ++ es') := by
  simp [logAll]

theorem log_eq_logAll (e : Event) : w.log e = w.logAll [e] := rfl

@[simp] theorem store_logAll (es : List Event) : (w.logAll es).store = w.store := rfl

@[simp] theorem updater_logAll (es : List Event) : (w.logAll es).updater = w.updater := rfl

@[simp] theorem logAll_withCalls (calls : List Nat) (es : List Event) :
    (w.withCalls calls).logAll es = (w.logAll es).withCalls calls := rfl

@[simp] theorem logAll_withStore (s : Store) (es : List Event) :
    (w.withStore s).logAll es = (w.logAll es).withStore s := rfl

@[simp] theorem store_withStore (s : Store) : (w.withStore s).store = s := rfl

@[simp] theorem withStore_withStore (s s' : Store) : (w.withStore s).withStore s' = w.withStore s' := rfl

/-- No change is under way, and the connection in use can be used. -/
structure Quiet (w : World) : Prop where
  saved : w.unsaved = none
  live : ∀ n, w.link? = .ok n → w.link n = .live

theorem Quiet.withCalls (h : w.Quiet) (calls : List Nat) : (w.withCalls calls).Quiet := ⟨h.saved, h.live⟩

/-- The state after a call that went as given. -/
def after (w : World) (o : Outcome) : World :=
  { w with updater := o.updater, events := w.events ++ o.events }

theorem after_unchanged {r : Except Fault Unit} : w.after ⟨w.updater, [], r⟩ = w := by
  simp [after]

theorem withStore_logAll (s : Store) (es es' : List Event) (r : Except Fault Unit) :
    ((w.logAll es).withStore s).logAll es' =
      w.after ⟨{ w.updater with store := s }, es ++ es', r⟩ := by
  simp only [World.withStore, World.logAll, after, List.append_assoc]

theorem Quiet.logAll (h : w.Quiet) (es : List Event) : (w.logAll es).Quiet := ⟨h.saved, h.live⟩

/-- An increment leaves connections as they are. -/
theorem Quiet.upsert (h : w.Quiet) (tag : Value) (kind : GivenKind) (delta : Value) :
    (w.withStore (w.store.upsert tag kind delta).1).Quiet := by
  have hlink : (w.withStore (w.store.upsert tag kind delta).1).link? = w.link? := by
    cases hs : w.store with
    | memory s => simp only [link?, Store.upsert, store_withStore, hs]
    | database s =>
      have hc : (s.upsert tag kind delta).1.connected = s.connected := by
        simp only [DatabaseStore.upsert]
        split
        · rfl
        · split_ifs <;> rfl
      simp only [link?, Store.upsert, store_withStore, hs, hc]
      rfl
  exact ⟨h.saved, fun n hn => h.live n (hlink ▸ hn)⟩

theorem Quiet.incrementEach (h : w.Quiet) (kind : SignalKind) (tags : List String) :
    (w.withStore (Updater.incrementEach kind w.store tags).1).Quiet := by
  induction tags generalizing w with
  | nil => exact h
  | cons t ts ih =>
    have hquiet := h.upsert (.text t) (.kind kind) (.whole 1)
    cases hup : w.store.upsert (.text t) (.kind kind) (.whole 1) with
    | mk s r =>
      rw [hup] at hquiet
      simp only [Updater.incrementEach, hup]
      cases r with
      | error f => exact hquiet
      | ok c => exact ih hquiet

/-- What is asked for and what is remembered have nothing to do with connections. -/
theorem Quiet.after (h : w.Quiet) {o : Outcome} (ho : (w.withStore o.updater.store).Quiet) :
    (w.after o).Quiet :=
  ⟨h.saved, ho.live⟩

/-- A call leaves nothing under way. -/
theorem Quiet.perform (h : w.Quiet) (c : Call) : (w.after (w.updater.perform c)).Quiet := by
  refine h.after ?_
  cases c with
  | classify tags =>
    simp only [Updater.perform, Updater.classify]
    split
    · exact h
    · exact h.incrementEach .classifyText _
  | converse request d =>
    simp only [Updater.perform, Updater.converse]
    split
    · exact h
    · exact h
    · rcases w.updater.ingest_cases (request.key w.updater.policy.defaultKey) request d with
        ⟨f, -, hu⟩ | ⟨tags, s, events, f, -, hs, hu⟩ | ⟨tags, s, events, v, r, -, hs, hv, hu⟩
      · rw [hu]
        exact h
      · have hquiet := h.incrementEach .conversationActions (firstOccurrences tags)
        rw [World.store, hs] at hquiet
        rw [hu]
        exact hquiet
      · have hquiet := h.incrementEach .conversationActions (firstOccurrences tags)
        have hstore := ({ w.updater with store := s }.remember_fst
          (request.key w.updater.policy.defaultKey) (request.latest.map Moment.instant)).1
        rw [World.store, hs] at hquiet
        rw [hv] at hstore
        rw [hu, hstore]
        exact hquiet

/-! ### Several calls -/

/-- The state after calls that went one after another. -/
def afterAll (w : World) (cs : List Call) : World :=
  { w with
    updater := (w.updater.performAll cs).1
    events := w.events ++ (w.updater.performAll cs).2.1 }

variable (w : World) (cs : List Call) (c : Call)

theorem afterAll_nil : w.afterAll [] = w := by
  simp [afterAll, Updater.performAll]

theorem afterAll_concat :
    w.afterAll (cs ++ [c]) = (w.afterAll cs).after ((w.afterAll cs).updater.perform c) := by
  simp only [afterAll, after, Updater.performAll_concat, List.append_assoc]

theorem Quiet.afterAll {w : World} (h : w.Quiet) (cs : List Call) : (w.afterAll cs).Quiet := by
  induction cs using List.reverseRecOn with
  | nil => rwa [afterAll_nil]
  | append_singleton cs c ih =>
    rw [afterAll_concat]
    exact ih.perform c

end World

end LanguageUsage
