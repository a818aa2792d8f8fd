import LanguageUsage.Proofs.Ingest.Runs
import LanguageUsage.Proofs.Store.Tally
import Mathlib.Data.List.Nodup

/-!
# Counts over a whole run

Calls are counted in a store in memory that was empty at first and refuses some tags. Here the rows are
traced back to the calls of the run: which tags each of them lists, and how far in its list it came.

* `Call.kind`, `Updater.list?`: what a call counts, each tag once, in the order of first occurrence;
* `Updater.Commits`: a tag of the list is counted;
* `Updater.occasions`, `Updater.commits`: the calls of a run, and all that they count;
* `Updater.asks_perform`: what a call asks the store for is what it lists;
* `Updater.store_performAll`: the store after a run is the tally of it;
* `Updater.counting_law`: the rows after any run, and how each call ends.
-/

namespace LanguageUsage

variable {limit : Option Nat} {R : List String} {ks : List (String × SignalKind)} {k : SignalKind} {tag : String}

/-! ### Lists of tags -/

theorem mem_takeWhile_iff {p : String → Bool} {ts : List String} : tag ∈ ts.takeWhile p ↔
    ∃ before after, ts = before ++ tag :: after ∧ ∀ t ∈ before ++ [tag], p t = true := by
  constructor
  · intro htag
    obtain ⟨before, after, hbefore⟩ := List.append_of_mem htag
    refine ⟨before, after ++ ts.dropWhile p, ?_, fun t ht => ?_⟩
    · rw [← List.cons_append, ← List.append_assoc, ← hbefore, List.takeWhile_append_dropWhile]
    · have hmem : t ∈ ts.takeWhile p := by
        rw [hbefore, List.append_cons]
        exact List.mem_append_left _ ht
      exact List.all_eq_true.1 List.all_takeWhile t hmem
  · rintro ⟨before, after, rfl, hall⟩
    rw [List.append_cons, List.takeWhile_append_of_pos hall]
    exact List.mem_append_left _ (by simp)

theorem firstOccurrences_eq (ts : List String) : firstOccurrences ts = ts.eraseDups := by
  induction ts with
  | nil => rfl
  | cons t ts ih =>
    have hne : (fun u => decide (u ≠ t)) = fun u => !u == t := by
      funext u
      by_cases hu : u = t <;> simp [hu]
    rw [firstOccurrences, ih, hne, ← eraseDups_filter, List.eraseDups_cons]

theorem nodup_firstOccurrences (ts : List String) : (firstOccurrences ts).Nodup := by
  rw [firstOccurrences_eq]
  exact nodup_eraseDups ts

/-- What a list of tags may hold: a text, or a value that counts as missing. -/
def Value.isTextOrMissing : Value → Bool
  | .text _ => true
  | v => !v.isTruthy

theorem toOption_usableTags (vs : List Value) : (usableTags vs).toOption =
    if vs.all Value.isTextOrMissing then some (vs.filterMap usableTag?) else none := by
  induction vs with
  | nil => rfl
  | cons v vs ih =>
    -- all values but texts are treated alike
    have hother : ∀ w : Value, usableTag? w = none → usableTags (w :: vs) =
        (if w.isTruthy then .error (.noMember w "strip") else usableTags vs) →
        w.isTextOrMissing = !w.isTruthy → (usableTags (w :: vs)).toOption =
          if (w :: vs).all Value.isTextOrMissing then some ((w :: vs).filterMap usableTag?) else none := by
      intro w hw heq hmissing
      rw [heq, List.filterMap_cons_none hw, List.all_cons, hmissing]
      cases w.isTruthy with
      | false => simpa using ih
      | true => rfl
    cases v with
    | text s =>
      have htext : (usableTags (.text s :: vs)).toOption =
          (usableTags vs).toOption.map fun ts => if Text.isBlank s then ts else s :: ts := by
        rw [usableTags]
        cases usableTags vs <;> rfl
      rw [htext, ih, List.all_cons]
      cases hs : Text.isBlank s <;> by_cases hvs : vs.all Value.isTextOrMissing = true <;>
        simp [hvs, Value.isTextOrMissing, usableTag?, hs]
    | null => exact hother _ rfl rfl rfl
    | bool b => exact hother _ rfl rfl rfl
    | number n => exact hother _ rfl rfl rfl
    | list vs => exact hother _ rfl rfl rfl
    | object fs => exact hother _ rfl rfl rfl

namespace Detector

variable (d : Detector)

/-- A text is answered with tags. -/
def answers (text : String) : Bool := (d.answer text).tags.isOk

/-- The top tag of a text, if there is one. -/
def top? (text : String) : Option String := (d.answer text).tags.toOption.bind topTag

theorem toOption_consult (texts : List String) : (d.consult texts).2.toOption =
    if texts.all d.answers then some (texts.filterMap d.top?) else none := by
  induction texts with
  | nil => rfl
  | cons t ts ih =>
    rw [List.all_cons, List.filterMap_cons, consult, answers, top?]
    cases (d.answer t).tags with
    | error f => rfl
    | ok tags =>
      have hrest : ((d.consult ts).2.map fun rest => (topTag tags).toList ++ rest).toOption =
          if ts.all d.answers then some ((topTag tags).toList ++ ts.filterMap d.top?) else none := by
        have hmap : ∀ r : Except Fault (List String), (r.map fun rest => (topTag tags).toList ++ rest).toOption =
            r.toOption.map fun rest => (topTag tags).toList ++ rest := by
          rintro (f | rest) <;> rfl
        rw [hmap, ih]
        cases ts.all d.answers <;> rfl
      refine hrest.trans ?_
      cases hd : topTag tags <;> simp [hd, Except.toOption, Except.isOk, Except.toBool]

end Detector

theorem isBlank_of_usableTag? {v : Value} (h : usableTag? v = some tag) : Text.isBlank tag = false := by
  cases v with
  | text s =>
    rw [usableTag?] at h
    split at h
    · cases h
    · next hs =>
      obtain rfl := Option.some.inj h
      simpa using hs
  | _ => cases h

theorem isBlank_of_mem_usable {vs : List Value} (h : tag ∈ vs.filterMap usableTag?) : Text.isBlank tag = false := by
  obtain ⟨v, -, hv⟩ := List.mem_filterMap.1 h
  exact isBlank_of_usableTag? hv

theorem Detector.isBlank_of_mem_tops {d : Detector} {texts : List String} (h : tag ∈ texts.filterMap d.top?) :
    Text.isBlank tag = false := by
  obtain ⟨text, -, htop⟩ := List.mem_filterMap.1 h
  obtain ⟨tags, -, htag⟩ := Option.bind_eq_some_iff.1 htop
  obtain ⟨v, -, hv⟩ := List.exists_of_findSome?_eq_some htag
  exact isBlank_of_usableTag? hv

/-- The kind of signal that a call counts. -/
def Call.kind : Call → SignalKind
  | .classify _ => .classifyText
  | .converse _ _ => .conversationActions

namespace Updater

/-- The tags that a call counts if the store takes them: those of the list that it was given, or the top
tags of the texts of a request. A call lists nothing if it is skipped, if a text cannot be answered or if it
was given something that cannot be a tag. -/
def list? (u : Updater) : Call → Option (List String)
  | .classify tags =>
    if tags.all Value.isTextOrMissing then some (tags.filterMap usableTag?).eraseDups else none
  | .converse request d =>
    match u.isReplay (request.key u.policy.defaultKey) request with
    | .ok false =>
      if request.texts.all d.answers then some (request.texts.filterMap d.top?).eraseDups else none
    | _ => none

theorem list?_classify (u : Updater) (tags : List Value) :
    u.list? (.classify tags) = (usableTags tags).toOption.map List.eraseDups := by
  rw [list?, toOption_usableTags]
  split <;> rfl

theorem list?_converse (u : Updater) (request : Request) (d : Detector)
    (h : u.isReplay (request.key u.policy.defaultKey) request = .ok false) :
    u.list? (.converse request d) = (d.consult request.texts).2.toOption.map List.eraseDups := by
  rw [list?, h, Detector.toOption_consult]
  simp only
  split <;> rfl

/-- A list holds no blank tag, and every tag once. -/
theorem eq_eraseDups_of_list? {u : Updater} {c : Call} {ts : List String} (h : u.list? c = some ts) :
    ∃ us : List String, ts = us.eraseDups ∧ ∀ t ∈ us, Text.isBlank t = false := by
  cases c with
  | classify tags =>
    rw [list?] at h
    split at h
    · exact ⟨_, (Option.some.inj h).symm, fun t => isBlank_of_mem_usable⟩
    · cases h
  | converse request d =>
    rw [list?] at h
    split at h
    · split at h
      · exact ⟨_, (Option.some.inj h).symm, fun t => Detector.isBlank_of_mem_tops⟩
      · cases h
    · cases h

/-- The tags that a call lists. -/
def listed (u : Updater) (c : Call) : List String := (u.list? c).getD []

theorem isBlank_of_mem_listed {u : Updater} {c : Call} : ∀ t ∈ u.listed c, Text.isBlank t = false := by
  intro t ht
  unfold listed at ht
  cases hlist : u.list? c with
  | none => simp [hlist] at ht
  | some ts =>
    obtain ⟨us, rfl, hus⟩ := eq_eraseDups_of_list? hlist
    rw [hlist] at ht
    exact hus t (List.mem_eraseDups.1 ht)

theorem nodup_listed (u : Updater) (c : Call) : (u.listed c).Nodup := by
  unfold listed
  cases hlist : u.list? c with
  | none => exact List.nodup_nil
  | some ts =>
    obtain ⟨us, rfl, -⟩ := eq_eraseDups_of_list? hlist
    exact nodup_eraseDups us

/-! ### What is counted -/

/-- A call counts a tag: the tag is listed, and the store refuses neither this tag nor one before it. -/
def Commits (u : Updater) (R : List String) (c : Call) (tag : String) : Prop :=
  ∃ before after, u.list? c = some (before ++ tag :: after) ∧ ∀ t ∈ before ++ [tag], t ∉ R

/-- The tags that a call counts. -/
def committed (u : Updater) (R : List String) (c : Call) : List String := (u.listed c).takeWhile (· ∉ R)

theorem mem_committed {u : Updater} {c : Call} : tag ∈ u.committed R c ↔ u.Commits R c tag := by
  rw [committed, listed, mem_takeWhile_iff, Commits]
  cases u.list? c with
  | none => simp
  | some ts => simp

theorem nodup_committed (u : Updater) (c : Call) : (u.committed R c).Nodup :=
  (u.nodup_listed c).sublist (List.takeWhile_sublist _)

instance (u : Updater) (R : List String) (c : Call) (tag : String) : Decidable (u.Commits R c tag) :=
  decidable_of_iff _ mem_committed

/-- The calls of a run, each with the updater that performs it. -/
def occasions (u : Updater) : List Call → List (Updater × Call)
  | [] => []
  | c :: cs => (u, c) :: (u.perform c).updater.occasions cs

theorem length_occasions (u : Updater) (cs : List Call) : (u.occasions cs).length = cs.length := by
  induction cs generalizing u with
  | nil => rfl
  | cons c cs ih => exact congrArg Nat.succ (ih _)

/-- All that is counted in a run, in order. -/
def commits (u : Updater) (R : List String) (cs : List Call) : List (String × SignalKind) :=
  (u.occasions cs).flatMap fun o => (o.1.committed R o.2).map fun t => (t, o.2.kind)

/-- A call counts a tag that it commits once, and no other tag. -/
theorem count_committed (u : Updater) (c : Call) : ((u.committed R c).map fun t => (t, c.kind)).count (tag, k) =
    if c.kind = k ∧ u.Commits R c tag then 1 else 0 := by
  have hmem : (tag, k) ∈ ((u.committed R c).map fun t => (t, c.kind)) ↔ c.kind = k ∧ u.Commits R c tag := by
    rw [← mem_committed]
    simp [and_comm]
  have hinj : Function.Injective fun t : String => (t, c.kind) := fun _ _ h => (Prod.mk.inj h).1
  rw [((nodup_committed u c).map hinj).count, if_congr hmem rfl rfl]

theorem count_commits (u : Updater) (cs : List Call) : (u.commits R cs).count (tag, k) =
    (u.occasions cs).countP fun o => o.2.kind = k ∧ o.1.Commits R o.2 tag := by
  unfold commits
  induction u.occasions cs with
  | nil => rfl
  | cons o os ih =>
    rw [List.flatMap_cons, List.count_append, ih, count_committed, List.countP_cons, Nat.add_comm]
    simp

/-! ### What becomes of the store -/

/-- The counts are raised up to a refused tag, if all of them can be written. -/
theorem incrementEach_tally {ks : List (String × SignalKind)} {ts : List String}
    (hts : ∀ t ∈ ts, Text.isBlank t = false)
    (hroom : ∀ digits ∈ limit, ∀ t ∈ ts, ks.count (t, k) + ts.count t < 10 ^ digits) :
    (incrementEach k (.memory (.tally limit R ks)) ts).1 =
        .memory (.tally limit R (ks ++ (ts.takeWhile (· ∉ R)).map fun t => (t, k))) ∧
      (incrementEach k (.memory (.tally limit R ks)) ts).2.2 =
        if ∃ t ∈ ts, t ∈ R then .error .diskFull else .ok () := by
  induction ts generalizing ks with
  | nil => simp [incrementEach]
  | cons t ts ih =>
    have hblank : Text.isBlank t = false := hts t List.mem_cons_self
    have hlogged : (MemoryStore.tally limit R ks).logged (.whole (ks.count (t, k) + 1)) =
        .ok (.whole (ks.count (t, k) + 1)) := by
      refine MemoryStore.logged_whole fun digits hdigits => ?_
      have hfits := hroom digits hdigits t List.mem_cons_self
      rw [List.count_cons_self] at hfits
      omega
    have hupsert : (Store.memory (.tally limit R ks)).upsert (.text t) (.kind k) (.whole 1) =
        if t ∈ R then (.memory (.tally limit R ks), .error .diskFull)
        else (.memory (.tally limit R (ks ++ [(t, k)])), .ok (.whole (ks.count (t, k) + 1))) := by
      simp only [Store.upsert, MemoryStore.upsert_tally, hblank, Bool.false_eq_true, if_false, hlogged]
      split <;> rfl
    rw [incrementEach, hupsert]
    by_cases ht : t ∈ R
    · simp [ht]
    · have hrest : ∀ digits ∈ limit, ∀ t' ∈ ts, (ks ++ [(t, k)]).count (t', k) + ts.count t' < 10 ^ digits := by
        intro digits hdigits t' ht'
        have hfits := hroom digits hdigits t' (List.mem_cons_of_mem _ ht')
        rw [List.count_append, List.count_singleton]
        rw [List.count_cons] at hfits
        by_cases htt : t = t' <;> simp [htt] at hfits ⊢ <;> omega
      obtain ⟨hstore, hresult⟩ := ih (fun t' ht' => hts t' (List.mem_cons_of_mem _ ht')) hrest
      simp [ht, hstore, hresult]

/-! ### Faults that are not the store's -/

theorem category_of_usableTags {vs : List Value} {f : Fault} (h : usableTags vs = .error f) :
    f.category = .missingMember := by
  fun_induction usableTags vs with
  | case1 => cases h
  | case2 s vs ih =>
    cases hvs : usableTags vs with
    | error g =>
      rw [hvs] at h
      exact ih (hvs.trans h)
    | ok ts =>
      rw [hvs] at h
      cases h
  | case3 v vs _ _ => 
    cases h
    rfl
  | case4 v vs _ _ ih => exact ih h

theorem category_of_tags {a : Answer} {f : Fault} (h : a.tags = .error f) :
    f.category = .detectionFailure ∨ f.category = .interruption := by
  unfold Answer.tags at h
  split at h <;> cases h <;> simp [Fault.category]

theorem category_of_consult {d : Detector} {texts : List String} {f : Fault}
    (h : (d.consult texts).2 = .error f) : f.category = .detectionFailure ∨ f.category = .interruption := by
  induction texts with
  | nil => cases h
  | cons t ts ih =>
    unfold Detector.consult at h
    cases htags : (d.answer t).tags with
    | error g =>
      rw [htags] at h
      cases h
      exact category_of_tags htags
    | ok tags =>
      rw [htags] at h
      cases hts : (d.consult ts).2 with
      | error g => exact ih (by simpa [hts, Except.map] using h)
      | ok found => simp [hts, Except.map] at h

theorem category_of_trim {capacity : Value} {m : ReplayMemory} {f : Fault}
    (h : (m.trim capacity).2 = .error f) : f.category = .missingKey ∨ f.category = .wrongType := by
  have htrim : ∀ (n : Number) (m : ReplayMemory), (ReplayMemory.trimTo n m).2 = .error f →
      f.category = .missingKey := by
    intro n m hm
    fun_induction ReplayMemory.trimTo n m with
    | case1 =>
      split at hm <;> cases hm
      rfl
    | case2 e es _ ih => exact ih hm
    | case3 e es _ => cases hm
  unfold ReplayMemory.trim at h
  split at h
  · exact .inl (htrim _ _ h)
  · cases h
    exact .inr rfl

theorem category_of_remember {u : Updater} {key : Value} {latest : Option Int} {f : Fault}
    (h : (u.remember key latest).2 = .error f) : f.category = .missingKey ∨ f.category = .wrongType := by
  unfold remember at h
  split at h
  · exact category_of_trim h
  · cases h

theorem category_of_isReplay {u : Updater} {key : Value} {request : Request} {f : Fault}
    (h : u.isReplay key request = .error f) : f = .unwritable ∨ f.category = .wrongType := by
  unfold isReplay at h
  split at h
  · cases h
    exact .inl rfl
  · split at h
    · cases h
    · split at h
      · cases h
        exact .inr rfl
      · cases h

/-! ### Calls -/

/-- A call asks the store to count the tags `ts`, and has the fault of the store if there is one. It may have
another fault if the store has none. -/
structure Asks (o : Outcome) (k : SignalKind) (s : Store) (ts : List String) : Prop where
  store : o.updater.store = (incrementEach k s ts).1
  fault : ∀ f, (incrementEach k s ts).2.2 = .error f → o.result = .error f
  others : (incrementEach k s ts).2.2 = .ok () → ∀ f, o.result = .error f → f.category ≠ .storeFailure

/-- Nothing is asked for where the store stays as it is. -/
theorem Asks.nothing {o : Outcome} {s : Store} (hstore : o.updater.store = s)
    (hresult : ∀ f, o.result = .error f → f.category ≠ .storeFailure) : Asks o k s [] :=
  ⟨hstore, by rintro f ⟨⟩, fun _ => hresult⟩

variable {u : Updater} {c : Call}

theorem asks_classify (tags : List Value) :
    Asks (u.classify tags) .classifyText u.store (u.listed (.classify tags)) := by
  rw [listed, list?_classify, classify]
  cases htags : usableTags tags with
  | error f =>
    refine .nothing rfl fun g hg => ?_
    cases hg
    rw [category_of_usableTags htags]
    decide
  | ok found =>
    simp only [firstOccurrences_eq]
    refine ⟨rfl, fun f hf => hf, fun hok f hf => ?_⟩
    rw [show (incrementEach .classifyText u.store found.eraseDups).2.2 = .ok () from hok] at hf
    cases hf

theorem asks_ingest (key : Value) (request : Request) (d : Detector) :
    Asks (u.ingest key request d) .conversationActions u.store
      (((d.consult request.texts).2.toOption.map List.eraseDups).getD []) := by
  rcases u.ingest_cases key request d with
    ⟨f, hfound, hu⟩ | ⟨tags, s, events, f, hfound, hcount, hu⟩ | ⟨tags, s, events, v, r, hfound, hcount, hv, hu⟩
  · rw [hu, hfound]
    refine .nothing rfl fun g hg => ?_
    cases hg
    rcases category_of_consult hfound with hcategory | hcategory <;> rw [hcategory] <;> decide
  · rw [firstOccurrences_eq] at hcount
    have hlist : ((d.consult request.texts).2.toOption.map List.eraseDups).getD [] = tags.eraseDups := by
      rw [hfound]
      rfl
    rw [hu, hlist]
    constructor
    · rw [hcount]
    · rw [hcount]
      exact fun g hg => hg
    · rw [hcount]
      intro hok
      cases hok
  · rw [firstOccurrences_eq] at hcount
    have hlist : ((d.consult request.texts).2.toOption.map List.eraseDups).getD [] = tags.eraseDups := by
      rw [hfound]
      rfl
    have hstore := ({ u with store := s }.remember_fst key (request.latest.map Moment.instant)).1
    rw [hv] at hstore
    rw [hu, hlist]
    constructor
    · rw [hcount]
      exact hstore
    · rw [hcount]
      intro g hg
      cases hg
    · intro _ f hf
      rcases category_of_remember ((congrArg Prod.snd hv).trans hf) with hcategory | hcategory <;>
        rw [hcategory] <;> decide

/-- **What a call asks the store for** is what it lists. -/
theorem asks_perform (u : Updater) (c : Call) : Asks (u.perform c) c.kind u.store (u.listed c) := by
  cases c with
  | classify tags => exact asks_classify tags
  | converse request d =>
    cases hreplay : u.isReplay (request.key u.policy.defaultKey) request with
    | error f =>
      rw [perform, converse, listed, list?, hreplay]
      refine .nothing rfl fun g hg => ?_
      cases hg
      rcases category_of_isReplay hreplay with rfl | hcategory
      · decide
      · rw [hcategory]
        decide
    | ok replay =>
      cases replay with
      | true =>
        rw [perform, converse, listed, list?, hreplay]
        refine .nothing rfl fun g hg => ?_
        cases hg
      | false =>
        rw [perform, converse, listed, list?_converse u request d hreplay, hreplay]
        exact asks_ingest _ request d

/-- A call lists each tag once, so it raises a count by one at most. -/
theorem room_of_listed (hroom : ∀ digits ∈ limit, ∀ key, ks.count key + 1 < 10 ^ digits) :
    ∀ digits ∈ limit, ∀ t ∈ u.listed c, ks.count (t, c.kind) + (u.listed c).count t < 10 ^ digits := by
  intro digits hdigits t _
  have honce := List.nodup_iff_count_le_one.1 (u.nodup_listed c) t
  have hfits := hroom digits hdigits (t, c.kind)
  omega

/-- A call ends with the fault of the store if it lists a refused tag, and only then. -/
theorem result_perform (hstore : u.store = .memory (.tally limit R ks))
    (hroom : ∀ digits ∈ limit, ∀ key, ks.count key + 1 < 10 ^ digits) :
    ((u.perform c).result = .error .diskFull ↔ ∃ ts, u.list? c = some ts ∧ ∃ t ∈ ts, t ∈ R) ∧
    ∀ f, (u.perform c).result = .error f → f.category = .storeFailure → f = .diskFull := by
  obtain ⟨-, hfault, hothers⟩ := u.asks_perform c
  have hresult := (incrementEach_tally (R := R) (u.isBlank_of_mem_listed (c := c)) (room_of_listed hroom)).2
  have hlist : (∃ ts, u.list? c = some ts ∧ ∃ t ∈ ts, t ∈ R) ↔ ∃ t ∈ u.listed c, t ∈ R := by
    unfold listed
    cases u.list? c <;> simp
  rw [← hstore] at hresult
  rw [hlist]
  by_cases hR : ∃ t ∈ u.listed c, t ∈ R
  · rw [if_pos hR] at hresult
    have hfull := hfault _ hresult
    refine ⟨⟨fun _ => hR, fun _ => hfull⟩, fun f hf _ => ?_⟩
    rw [hfull] at hf
    cases hf
    rfl
  · rw [if_neg hR] at hresult
    refine ⟨⟨fun hfull => absurd rfl (hothers hresult _ hfull), fun hrefused => absurd hrefused hR⟩, ?_⟩
    exact fun f hf hcategory => absurd hcategory (hothers hresult f hf)

/-- **A call is counted.** -/
theorem store_perform (hstore : u.store = .memory (.tally limit R ks))
    (hroom : ∀ digits ∈ limit, ∀ key, ks.count key + 1 < 10 ^ digits) : (u.perform c).updater.store =
    .memory (.tally limit R (ks ++ (u.committed R c).map fun t => (t, c.kind))) := by
  rw [(u.asks_perform c).store, hstore, (incrementEach_tally isBlank_of_mem_listed (room_of_listed hroom)).1, committed]

/-- **Counting a run.** -/
theorem store_performAll (hstore : u.store = .memory (.tally limit R ks)) (cs : List Call)
    (hroom : ∀ digits ∈ limit, ∀ key, ks.count key + cs.length < 10 ^ digits) :
    (u.performAll cs).1.store = .memory (.tally limit R (ks ++ u.commits R cs)) := by
  induction cs generalizing u ks with
  | nil => simpa [performAll, commits, occasions] using hstore
  | cons c cs ih =>
    rw [performAll, commits, occasions, List.flatMap_cons, ← List.append_assoc]
    refine ih (store_perform hstore fun digits hdigits key => ?_) fun digits hdigits key => ?_
    · have hfits := hroom digits hdigits key
      rw [List.length_cons] at hfits
      omega
    · have hfits := hroom digits hdigits key
      have honce : ((u.committed R c).map fun t => (t, c.kind)).count key ≤ 1 := by
        rw [count_committed]
        split <;> omega
      rw [List.length_cons] at hfits
      rw [List.count_append]
      simp only at honce ⊢
      omega

/-! ### The law -/

/-- **The counting law.** An updater whose store was empty at first, and refuses the tags of `R`, has
performed any calls, not so many that their number cannot be written. The count of a key is the number of calls of
its kind that commit its tag: the calls that list it with no refused tag before it or at it. A key without such a
call has no row, and the rows stand in the order in which their keys were first committed.

A further call ends with the fault of the store exactly if it lists a refused tag. It adds one to the rows
of its kind whose tags it commits, also when it fails, and leaves all others alone. A request whose notification
cannot be written or looked up fails before anything is asked for, and lists nothing. -/
theorem counting_law (hstore : u.store = .memory { refused := R, digits := limit }) (cs : List Call)
    (hroom : ∀ digits ∈ limit, cs.length + 1 < 10 ^ digits) :
    let v := (u.performAll cs).1
    let times := fun tag k => (u.occasions cs).countP fun o => o.2.kind = k ∧ o.1.Commits R o.2 tag
    (∀ tag k, v.store.get (.text tag) (.kind k) =
      .ok (if times tag k = 0 then none else some ⟨tag, k, .whole (times tag k)⟩)) ∧
    v.store.rows =
      .ok ((u.commits R cs).eraseDups.map fun key => ⟨key.1, key.2, .whole (times key.1 key.2)⟩) ∧
    (∀ request d f, v.isReplay (request.key v.policy.defaultKey) request = .error f →
      v.perform (.converse request d) = ⟨v, [], .error f⟩ ∧ v.list? (.converse request d) = none) ∧
    ∀ c,
      ((v.perform c).result = .error .diskFull ↔ ∃ ts, v.list? c = some ts ∧ ∃ t ∈ ts, t ∈ R) ∧
      (∀ f, (v.perform c).result = .error f → f.category = .storeFailure → f = .diskFull) ∧
      ∀ tag k, let times' := times tag k + if c.kind = k ∧ v.Commits R c tag then 1 else 0
        (v.perform c).updater.store.get (.text tag) (.kind k) =
          .ok (if times' = 0 then none else some ⟨tag, k, .whole times'⟩) := by
  intro v times
  -- the empty store is the tally of nothing
  have hempty : u.store = .memory (.tally limit R []) := hstore
  have hrun : v.store = .memory (.tally limit R (u.commits R cs)) := by
    refine store_performAll hempty cs fun digits hdigits key => ?_
    have hfits := hroom digits hdigits
    simpa using Nat.lt_of_succ_lt hfits
  have htimes : ∀ tag k, (u.commits R cs).count (tag, k) = times tag k := fun tag k => count_commits u cs
  -- no key was counted more often than there were calls
  have hrest : ∀ digits ∈ limit, ∀ key, (u.commits R cs).count key + 1 < 10 ^ digits := by
    intro digits hdigits key
    have hle : (u.commits R cs).count key ≤ cs.length := by
      rw [count_commits, ← u.length_occasions]
      exact List.countP_le_length
    have hfits := hroom digits hdigits
    omega
  refine ⟨fun tag k => ?_, ?_, fun request d f hf => ?_,
    fun c => ⟨(result_perform hrun hrest).1, (result_perform hrun hrest).2, fun tag k => ?_⟩⟩
  · rw [hrun, Store.get, MemoryStore.get_tally, htimes]
  · rw [hrun, Store.rows, MemoryStore.rows_tally]
    simp only [htimes]
  · simp only [perform, converse, list?, hf, and_self]
  · rw [store_perform hrun hrest, Store.get, MemoryStore.get_tally, List.count_append, htimes, count_committed]

/-- A refused tag ends its call, and the tag before it stays counted. -/
theorem counting_law_of_refused_tag :
    let u : Updater := { store := .memory { refused := ["zh"] } }
    let request : Request := { messages := [{ text := some "hi" }] }
    let detector : Detector := { answer := fun _ => .value (.text "en") }
    let cs := [.classify [.text "en", .text " ", .text "en", .text "zh", .text "de"],
      .converse request detector]
    u.store = .memory { refused := ["zh"] } ∧ (u.performAll cs).1.store.rows =
      .ok [⟨"en", .classifyText, .whole 1⟩, ⟨"en", .conversationActions, .whole 1⟩] := by
  intro u request detector cs
  have hroom : ∀ digits ∈ some digitLimit, cs.length + 1 < 10 ^ digits := by
    rintro _ ⟨⟩
    exact fits_iff.1 (by decide +kernel)
  have hrows := (counting_law (u := u) rfl cs hroom).2.1
  refine ⟨rfl, hrows.trans (congrArg Except.ok ?_)⟩
  decide +kernel

/-- A list as the key of all requests cannot be looked up. So a request is not counted where replays are skipped: it is
not skipped itself, and each of its texts has a top tag. -/
theorem request_without_key_not_counted :
    let u : Updater := { store := .memory {}, policy := { defaultKey := .list [], suppressReplays := .bool true } }
    let request : Request := { messages := [{ text := some "hello" }] }
    let o := u.perform (.converse request .byScript)
    u.isReplay (request.key u.policy.defaultKey) request ≠ .ok true ∧
      (Detector.byScript.consult request.texts).2 = .ok ["en"] ∧ o.result = .error (.unhashable (.list [])) ∧
      o.updater.store.rows = .ok [] := by
  decide +kernel

end Updater

end LanguageUsage
