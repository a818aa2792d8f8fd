import LanguageUsage.Ingest.Updater
import Mathlib.Tactic.Common

/-!
# Calls one after another

* `Updater.ingest_cases`: how the counting of a request can end;
* `Updater.policy_performAll`: the settings stay as they are;
* `Updater.performAll_append`: a run of calls is taken apart at any call. What comes before is a run by
  itself, and so is what comes after.
-/

namespace LanguageUsage

namespace Updater

variable (u : Updater) (c : Call) (cs cs' : List Call)

/-! ### One call -/

/-- A request fails in detection or in counting, or is counted and its time noted. -/
theorem ingest_cases (key : Value) (request : Request) (d : Detector) :
    (∃ f, (d.consult request.texts).2 = .error f ∧
      u.ingest key request d = ⟨u, (d.consult request.texts).1.map .consulted, .error f⟩) ∨
    (∃ tags s events f, (d.consult request.texts).2 = .ok tags ∧
      incrementEach .conversationActions u.store (firstOccurrences tags) = (s, events, .error f) ∧
      u.ingest key request d =
        ⟨{ u with store := s }, (d.consult request.texts).1.map .consulted ++ events, .error f⟩) ∨
    ∃ tags s events v r, (d.consult request.texts).2 = .ok tags ∧
      incrementEach .conversationActions u.store (firstOccurrences tags) = (s, events, .ok ()) ∧
      { u with store := s }.remember key (request.latest.map Moment.instant) = (v, r) ∧
      u.ingest key request d = ⟨v, (d.consult request.texts).1.map .consulted ++ events, r⟩ := by
  cases hfound : (d.consult request.texts).2 with
  | error f =>
    refine .inl ⟨f, rfl, ?_⟩
    simp only [ingest, hfound]
  | ok tags =>
    rcases hcount : incrementEach .conversationActions u.store (firstOccurrences tags) with ⟨s, events, r⟩
    cases r with
    | error f =>
      refine .inr (.inl ⟨tags, s, events, f, rfl, hcount, ?_⟩)
      simp only [ingest, hfound, hcount]
    | ok _ =>
      rcases hv : { u with store := s }.remember key (request.latest.map Moment.instant) with ⟨v, r⟩
      refine .inr (.inr ⟨tags, s, events, v, r, rfl, hcount, hv, ?_⟩)
      simp only [ingest, hfound, hcount, hv]

theorem remember_fst (key : Value) (latest : Option Int) :
    (u.remember key latest).1.store = u.store ∧ (u.remember key latest).1.policy = u.policy := by
  unfold remember
  split <;> exact ⟨rfl, rfl⟩

theorem policy_ingest (key : Value) (request : Request) (d : Detector) :
    (u.ingest key request d).updater.policy = u.policy := by
  rcases u.ingest_cases key request d with
    ⟨f, -, hu⟩ | ⟨tags, s, events, f, -, -, hu⟩ | ⟨tags, s, events, v, r, -, -, hv, hu⟩
  · rw [hu]
  · rw [hu]
  · have hpolicy := ({ u with store := s }.remember_fst key (request.latest.map Moment.instant)).2
    rw [hu]
    rwa [hv] at hpolicy

theorem policy_perform : (u.perform c).updater.policy = u.policy := by
  cases c with
  | classify tags =>
    rw [perform, classify]
    split <;> rfl
  | converse request d =>
    rw [perform, converse]
    split
    · rfl
    · rfl
    · exact u.policy_ingest _ _ _

theorem policy_performAll : (u.performAll cs).1.policy = u.policy := by
  induction cs generalizing u with
  | nil => rfl
  | cons c cs ih =>
    unfold performAll
    exact (ih _).trans (u.policy_perform c)

/-! ### Several calls -/

theorem performAll_append : u.performAll (cs ++ cs') =
    (((u.performAll cs).1.performAll cs').1,
      (u.performAll cs).2.1 ++ ((u.performAll cs).1.performAll cs').2.1,
      (u.performAll cs).2.2 ++ ((u.performAll cs).1.performAll cs').2.2) := by
  induction cs generalizing u with
  | nil => rfl
  | cons c cs ih =>
    rw [List.cons_append, performAll, performAll, ih]
    simp only [List.append_assoc, List.cons_append]

/-- The last call of a run. -/
theorem performAll_concat : u.performAll (cs ++ [c]) =
    (((u.performAll cs).1.perform c).updater,
      (u.performAll cs).2.1 ++ ((u.performAll cs).1.perform c).events,
      (u.performAll cs).2.2 ++ [((u.performAll cs).1.perform c).result]) := by
  rw [performAll_append]
  simp [performAll]

theorem length_performAll : (u.performAll cs).2.2.length = cs.length := by
  induction cs generalizing u with
  | nil => rfl
  | cons c cs ih => rw [performAll, List.length_cons, List.length_cons, ih]

end Updater

end LanguageUsage
