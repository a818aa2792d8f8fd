import LanguageUsage.Proofs.Ingest.Counts
import LanguageUsage.Proofs.Service.Submission
import LanguageUsage.Proofs.Store.Refusal

/-!
# Calls look before they count

A call goes through all that it was given before it asks the store for anything. So what is wrong with a part of it is
found before the first tag is counted, wherever it stands; only the store itself can stop a call halfway.

* `Store.TakesAll`, `Store.counting`, `Served`: a store that is asked to count tags one after another;
* `Updater.served_incrementEach`: this is what a call does with the tags that it finds;
* `Answer.fault?`, `Answer.top?`: what is wrong with the answer of a detector, and the tag that it gives;
* `Updater.detection_before_counting`: the texts of a request are all answered before a tag is counted;
* `Updater.tags_before_counting`: the tags of a list are all looked at before one is counted.
-/

namespace LanguageUsage

variable {k : SignalKind} {s s' : Store} {tag : String} {ts : List String}

/-! ### What a store is asked for -/

namespace Store

/-- The store takes the tags one after another. -/
def TakesAll (k : SignalKind) : Store → List String → Prop
  | _, [] => True
  | s, t :: ts => (s.upsert (.text t) (.kind k) (.whole 1)).2.isOk = true ∧
      TakesAll k (s.upsert (.text t) (.kind k) (.whole 1)).1 ts

/-- The store after it was asked to count each tag once. -/
def counting (k : SignalKind) (s : Store) (ts : List String) : Store :=
  ts.foldl (fun s t => (s.upsert (.text t) (.kind k) (.whole 1)).1) s

end Store

/-- A store is asked to count each of some tags once, in order: all of them, or those up to the first that it refuses.
The requests are `events`, what becomes of the store is `s'`, and the fault of the tag that is refused is the result.
The tag that is refused changes nothing, unless it is refused because its new count cannot be put in the log. -/
inductive Served (k : SignalKind) (s : Store) (ts : List String) : List Event → Store → Except Fault Unit → Prop
  | all (h : s.TakesAll k ts) : Served k s ts (ts.map (.requested · k)) (s.counting k ts) (.ok ())
  | upTo (before : List String) {after : List String} {t : String} {f : Fault} (hts : ts = before ++ t :: after)
      (h : s.TakesAll k before)
      (hf : ((s.counting k before).upsert (.text t) (.kind k) (.whole 1)).2 = .error f)
      (hsame : f = .unwritable ∨ s.counting k (before ++ [t]) = s.counting k before) :
      Served k s ts ((before ++ [t]).map (.requested · k)) (s.counting k (before ++ [t])) (.error f)

/-- A tag that is taken goes before the others. -/
theorem Served.cons {events : List Event} {r : Except Fault Unit}
    (ht : (s.upsert (.text tag) (.kind k) (.whole 1)).2.isOk = true)
    (h : Served k (s.upsert (.text tag) (.kind k) (.whole 1)).1 ts events s' r) :
    Served k s (tag :: ts) (.requested tag k :: events) s' r := by
  cases h with
  | all h => exact .all ⟨ht, h⟩
  | @upTo before after t f hts h hf hsame =>
    exact .upTo (tag :: before) (by rw [hts, List.cons_append]) ⟨ht, h⟩ hf hsame

namespace Updater

/-- **Tags are counted in order**, up to the first that is refused. -/
theorem served_incrementEach (k : SignalKind) (s : Store) (ts : List String) :
    Served k s ts (incrementEach k s ts).2.1 (incrementEach k s ts).1 (incrementEach k s ts).2.2 := by
  induction ts generalizing s with
  | nil => exact .all trivial
  | cons t ts ih =>
    rw [incrementEach]
    rcases hup : s.upsert (.text t) (.kind k) (.whole 1) with ⟨s', f | n⟩
    · have hcounting : s.counting k [t] = s' := congrArg Prod.fst hup
      have hsame : f = .unwritable ∨ s.counting k [t] = s :=
        (Decidable.em (f = .unwritable)).imp_right (Store.upsert_of_refused (congrArg Prod.snd hup))
      rw [← hcounting]
      exact .upTo [] rfl trivial (congrArg Prod.snd hup) hsame
    · have hok : (s.upsert (.text t) (.kind k) (.whole 1)).2.isOk = true := by rw [hup]; rfl
      exact .cons hok (by rw [hup]; exact ih s')

end Updater

/-! ### Answers -/

namespace Answer

/-- The tag that an answer gives: a text that is not blank, or the first such text of a sequence. -/
def top? : Answer → Option String
  | .value (.text t) => if Text.isBlank t then none else some t
  | .value (.list items) | .tuple items => items.findSome? usableTag?
  | _ => none

variable {a : Answer}

end Answer

namespace Detector

variable {d : Detector} {before after texts : List String} {text : String}

end Detector

namespace Updater

variable (u : Updater)

end Updater

/-! ### Lists of tags -/

/-- What a list of tags may hold without a consequence: a blank text, or a value that counts as missing. -/
def Value.isPassedOver : Value → Bool
  | .text t => Text.isBlank t
  | v => !v.isTruthy

section Tags

variable {v : Value} {vs before after : List Value}

theorem usableTags_cons_of_not_text (h : ∀ t, v ≠ .text t) (vs : List Value) :
    usableTags (v :: vs) = if v.isTruthy then .error (.noMember v "strip") else usableTags vs := by
  cases v with
  | text t => exact absurd rfl (h t)
  | _ => rfl

/-- A list is gone through up to the first value that cannot be a tag. -/
theorem usableTags_of_odd (hbefore : ∀ w ∈ before, w.isTextOrMissing = true) (hv : v.isTextOrMissing = false) :
    usableTags (before ++ v :: after) = .error (.noMember v "strip") := by
  induction before with
  | nil =>
    have hnot : ∀ t, v ≠ .text t := by
      rintro t rfl
      cases hv
    have htruthy : v.isTruthy = true := by cases v <;> simp_all [Value.isTextOrMissing]
    rw [List.nil_append, usableTags_cons_of_not_text hnot, if_pos htruthy]
  | cons w ws ih =>
    obtain ⟨hw, hws⟩ := List.forall_mem_cons.1 hbefore
    rw [List.cons_append]
    by_cases htext : ∃ t, w = .text t
    · obtain ⟨t, rfl⟩ := htext
      rw [usableTags, ih hws]
      rfl
    · have hnot : ∀ t, w ≠ .text t := fun t ht => htext ⟨t, ht⟩
      have hmissing : w.isTruthy = false := by cases w <;> simp_all [Value.isTextOrMissing]
      rw [usableTags_cons_of_not_text hnot, hmissing]
      exact ih hws

theorem usableTags_of_all (h : ∀ w ∈ vs, w.isTextOrMissing = true) :
    usableTags vs = .ok (vs.filterMap usableTag?) := by
  have hoption := toOption_usableTags vs
  rw [if_pos (List.all_eq_true.2 h)] at hoption
  cases hvs : usableTags vs with
  | error f => simp [hvs, Except.toOption] at hoption
  | ok ts =>
    rw [hvs] at hoption
    exact congrArg Except.ok (Option.some.inj hoption)

/-- What is passed over may as well be left out. -/
theorem usableTags_filter (vs : List Value) : usableTags (vs.filter fun w => !w.isPassedOver) = usableTags vs := by
  induction vs with
  | nil => rfl
  | cons w ws ih =>
    by_cases htext : ∃ t, w = .text t
    · obtain ⟨t, rfl⟩ := htext
      rw [usableTags]
      cases hblank : Text.isBlank t with
      | true =>
        rw [List.filter_cons_of_neg (by simp [Value.isPassedOver, hblank]), ih]
        cases usableTags ws <;> rfl
      | false =>
        rw [List.filter_cons_of_pos (by simp [Value.isPassedOver, hblank]), usableTags, ih, hblank]
    · have hnot : ∀ t, w ≠ .text t := fun t ht => htext ⟨t, ht⟩
      have hpassed : w.isPassedOver = !w.isTruthy := by cases w <;> simp_all [Value.isPassedOver]
      rw [usableTags_cons_of_not_text hnot]
      cases htruthy : w.isTruthy with
      | true =>
        rw [List.filter_cons_of_pos (by simp [hpassed, htruthy]), usableTags_cons_of_not_text hnot, htruthy]
        rfl
      | false =>
        rw [List.filter_cons_of_neg (by simp [hpassed, htruthy]), ih]
        rfl

end Tags

namespace Updater

variable (u : Updater)

/-- **All tags are looked at before one is counted.** A value is given as a list of tags. If it is nothing that can be
gone through, no call is made of it, and submitting it does nothing at all. Otherwise, if there is something in it that
is neither a text nor counts as missing, the call fails with the first such member, and the updater has not changed,
whatever stands before it. Otherwise the store is asked to count the texts in it that are not blank, each once, in the
order of first occurrence, up to the first that it refuses. Blank texts and what counts as missing may as well be left
out. -/
theorem tags_before_counting (v : Value) :
    (v.elements? = none → Call.ofTags v = .error (.notIterable v) ∧
      (Work.submit (Call.ofTags v)).run = .done (.error (.notIterable v)) ∧
      (Fault.notIterable v).category = .wrongType) ∧
    ∀ vs, v.elements? = some vs → Call.ofTags v = .ok (.classify vs) ∧
      let o := u.perform (.classify vs)
      (∀ before w after, vs = before ++ w :: after → (∀ w' ∈ before, w'.isTextOrMissing = true) →
        w.isTextOrMissing = false → o = ⟨u, [], .error (.noMember w "strip")⟩ ∧
          (Fault.noMember w "strip").category = .missingMember) ∧
      ((∀ w ∈ vs, w.isTextOrMissing = true) →
        Served .classifyText u.store (vs.filterMap usableTag?).eraseDups o.events o.updater.store o.result ∧
          o.updater.memory = u.memory) ∧
      u.perform (.classify (vs.filter fun w => !w.isPassedOver)) = o := by
  constructor
  · intro hnone
    have hcall : Call.ofTags v = .error (.notIterable v) := by rw [Call.ofTags, hnone]
    exact ⟨hcall, by rw [hcall]; rfl, rfl⟩
  · intro vs hvs
    refine ⟨by rw [Call.ofTags, hvs], ?_⟩
    intro o
    refine ⟨fun before w after hsplit hbefore hw => ⟨?_, rfl⟩, fun hall => ?_, ?_⟩
    · show u.classify vs = _
      rw [classify, hsplit, usableTags_of_odd hbefore hw]
    · have ho : o = u.classify vs := rfl
      have hserved := served_incrementEach .classifyText u.store (vs.filterMap usableTag?).eraseDups
      rw [← firstOccurrences_eq] at hserved ⊢
      rw [ho, classify, usableTags_of_all hall]
      exact ⟨hserved, rfl⟩
    · show u.classify _ = u.classify vs
      rw [classify, usableTags_filter, classify]

/-- A list with an odd member at its end counts nothing, a text is gone through by its characters, and a number cannot
be gone through. -/
theorem tags_before_counting_of_odd_member :
    let u : Updater := { store := .memory {} }
    (Value.list [.text "en", .null, .object [("en", .null)]]).elements? =
        some [.text "en", .null, .object [("en", .null)]] ∧
      (u.perform (.classify [.text "en", .null, .object [("en", .null)]])).updater = u ∧
      (Value.text "e ne").elements? = some [.text "e", .text " ", .text "n", .text "e"] ∧
      Served .classifyText u.store ["e", "n"]
        (u.perform (.classify [.text "e", .text " ", .text "n", .text "e"])).events
        (u.perform (.classify [.text "e", .text " ", .text "n", .text "e"])).updater.store
        (u.perform (.classify [.text "e", .text " ", .text "n", .text "e"])).result ∧
      (Value.whole 3).elements? = none ∧ Call.ofTags (.whole 3) = .error (.notIterable (.whole 3)) := by
  intro u
  have hodd := ((tags_before_counting u (.list [.text "en", .null, .object [("en", .null)]])).2 _ rfl).2.1
    [.text "en", .null] (.object [("en", .null)]) [] rfl (by decide) rfl
  have hserved := (((tags_before_counting u (.text "e ne")).2 [.text "e", .text " ", .text "n", .text "e"] rfl).2.2.1
    (by decide)).1
  have htags : ([Value.text "e", .text " ", .text "n", .text "e"].filterMap usableTag?).eraseDups = ["e", "n"] := by
    decide +kernel
  rw [htags] at hserved
  exact ⟨rfl, by rw [hodd.1], rfl, hserved, rfl, ((tags_before_counting u (.whole 3)).1 rfl).1⟩

end Updater

end LanguageUsage
