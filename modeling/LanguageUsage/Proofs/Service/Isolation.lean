import LanguageUsage.Proofs.Service.Failure

/-!
# Rows of no known kind

The table of a database may hold rows whose word is that of no kind. Requests that are about one kind do not meet them:
they are answered as if these rows were not there, and leave them as they are. Only who reads all rows meets them, and
fails.

* `Table.known`, `Table.unknown`: the two parts of a table;
* `DatabaseStore.cleared`: the same database without the rows of no known kind;
* `Operation.isOfOneKind`: a request that is about one kind;
* `DatabaseStore.perform_cleared`, `DatabaseStore.performAll_cleared`: a request, and a run of requests, on both;
* `Table.mapM_rowOf_eq`: what reading all rows comes to;
* `Service.unknown_rows_isolated`: what is seen of a service.
-/

namespace LanguageUsage

/-! ### The parts of a table -/

namespace Counters

variable {κ : Type} [DecidableEq κ] {p : κ → Bool} {key : κ}

theorem get?_filter (cs : Counters κ) (hp : p key = true) : get? (cs.filter fun c => p c.1) key = cs.get? key := by
  induction cs with
  | nil => rfl
  | cons c cs ih =>
    simp only [List.filter_cons, get?_cons]
    cases hc : p c.1 with
    | true => rw [if_pos rfl, get?_cons, ih]
    | false =>
      have hne : c.1 ≠ key := fun heq => Bool.false_ne_true (hc.symm.trans (heq ▸ hp))
      rw [if_neg Bool.false_ne_true, ih, if_neg hne]

/-- A write to a key among those that are chosen is seen among them. -/
theorem filter_put (cs : Counters κ) (hp : p key = true) (n : Number) :
    (cs.put key n).filter (fun c => p c.1) = put (cs.filter fun c => p c.1) key n := by
  induction cs with
  | nil => simp [put, hp]
  | cons c cs ih =>
    rw [put]
    by_cases hkey : c.1 = key
    · simp only [hkey, if_true, List.filter_cons, hp, put]
    · simp only [hkey, if_false, List.filter_cons, ih]
      cases p c.1 with
      | true => rw [if_pos rfl, if_pos rfl, put, if_neg hkey]
      | false => rfl

/-- A write to another key is not. -/
theorem filter_put_of_not (cs : Counters κ) (hp : p key = false) (n : Number) :
    (cs.put key n).filter (fun c => p c.1) = cs.filter fun c => p c.1 := by
  induction cs with
  | nil => simp [put, hp]
  | cons c cs ih =>
    rw [put]
    by_cases hkey : c.1 = key
    · simp only [hkey, if_true, List.filter_cons, hp, Bool.false_eq_true, if_false]
    · simp only [hkey, if_false, List.filter_cons, ih]

end Counters

namespace Table

variable {t : Table}

/-- The word of a key is that of a kind. -/
def isKnown (key : String × String) : Bool := (SignalKind.ofWord? key.2).isSome

/-- The rows of known kinds. -/
def known (t : Table) : Table := t.filter fun c => isKnown c.1

/-- The rows of no known kind. -/
def unknown (t : Table) : Table := t.filter fun c => !isKnown c.1

theorem isKnown_word (tag : String) (k : SignalKind) : isKnown (tag, k.word) = true := by
  rw [isKnown, SignalKind.ofWord?_word]
  rfl

theorem isKnown_iff {key : String × String} : isKnown key = true ↔ ∃ k : SignalKind, key.2 = k.word := by
  simp only [isKnown, Option.isSome_iff_exists, SignalKind.ofWord?_eq_some_iff, @eq_comm _ key.2]

theorem known_put (t : Table) (tag : String) (k : SignalKind) (n : Number) :
    known (Counters.put t (tag, k.word) n) = Counters.put t.known (tag, k.word) n :=
  Counters.filter_put t (isKnown_word tag k) n

theorem unknown_put (t : Table) (tag : String) (k : SignalKind) (n : Number) :
    unknown (Counters.put t (tag, k.word) n) = t.unknown :=
  Counters.filter_put_of_not (p := fun key => !isKnown key) t (by rw [isKnown_word]; rfl) n

theorem raised_known (t : Table) (tag : String) (k : SignalKind) (delta : Number) :
    t.known.raised (tag, k.word) delta = t.raised (tag, k.word) delta := by
  rw [raised, raised, known, Counters.get?_filter t (isKnown_word tag k)]

/-- Rows that are chosen by the word of a kind are of known kinds. -/
theorem filter_known {p : (String × String) × Number → Bool} {k : SignalKind}
    (hp : ∀ c, p c = true → c.1.2 = k.word) : t.known.filter p = t.filter p := by
  rw [known, List.filter_filter]
  refine List.filter_congr fun c _ => ?_
  cases hc : p c with
  | false => rfl
  | true => exact isKnown_iff.2 ⟨k, hp c hc⟩

/-- **Reading all rows.** The first row of no known kind is reported. Without one all rows are read, and among them the
rows of each kind are those that are read for this kind. -/
theorem mapM_rowOf_eq (t : Table) :
    (∀ f, t.mapM rowOf = .error f ↔ ∃ c, t.unknown.head? = some c ∧ f = .unknownStoredKind c.1.2) ∧
      (t.unknown = [] → ∃ rs, t.mapM rowOf = .ok rs ∧
        ∀ k : SignalKind, (t.filter fun c => c.1.2 == k.word).mapM rowOf = .ok (rs.filter fun r => r.kind = k)) := by
  induction t with
  | nil => exact ⟨by simp [unknown, pure, Except.pure], fun _ => ⟨[], rfl, fun _ => rfl⟩⟩
  | cons c t ih =>
    have hunknown : unknown (c :: t) = if isKnown c.1 then unknown t else c :: unknown t := by
      simp only [unknown, List.filter_cons]
      cases isKnown c.1 <;> rfl
    rw [List.mapM_cons, hunknown, isKnown]
    cases hword : SignalKind.ofWord? c.1.2 with
    | none =>
      have hrow : rowOf c = .error (.unknownStoredKind c.1.2) := by rw [rowOf, hword]
      rw [hrow]
      exact ⟨fun f => by simp [bind, Except.bind, eq_comm], fun hnone => absurd hnone (List.cons_ne_nil c _)⟩
    | some k =>
      have hrow : rowOf c = .ok ⟨c.1.1, k, c.2⟩ := by rw [rowOf, hword]
      have hk : c.1.2 = k.word := (SignalKind.ofWord?_eq_some_iff.1 hword).symm
      rw [hrow, Option.isSome_some, if_pos rfl]
      constructor
      · intro f
        rw [← ih.1]
        cases List.mapM rowOf t <;> simp [bind, Except.bind, pure, Except.pure]
      · intro hnone
        obtain ⟨rs, hrs, hkinds⟩ := ih.2 hnone
        refine ⟨⟨c.1.1, k, c.2⟩ :: rs, by rw [hrs]; rfl, fun l => ?_⟩
        by_cases hl : k = l
        · rw [List.filter_cons_of_pos (by simp [hk, hl]), List.filter_cons_of_pos (by simp [hl]), List.mapM_cons,
            hrow, hkinds]
          rfl
        · rw [List.filter_cons_of_neg (by simp [hk, hl]), List.filter_cons_of_neg (by simp [hl]), hkinds]

end Table

/-! ### Databases -/

namespace Medium

/-- The same without the rows of no known kind. -/
def cleared : Medium → Medium
  | .table t => .table t.known
  | .sealed t => .sealed t.known
  | m => m

theorem table?_cleared (m : Medium) : m.cleared.table? = m.table?.map Table.known := by
  cases m <;> rfl

/-- A request is carried out beside the rows of no known kind. -/
theorem add_cleared (m : Medium) (i : Increment) : m.cleared.add i = ((m.add i).1.cleared, (m.add i).2) := by
  cases m with
  | table t =>
    simp only [cleared, add, table?]
    cases columnDelta i with
    | error f => rfl
    | ok d => simp only [Table.raised_known, Table.known_put]
  | sealed t =>
    simp only [cleared, add, table?]
    cases columnDelta i <;> rfl
  | _ => rfl

/-- It leaves them as they are. -/
theorem unknown_add (m : Medium) (i : Increment) :
    (m.add i).1.table?.map Table.unknown = m.table?.map Table.unknown := by
  rcases m.add_cases i with ⟨f, hadd⟩ | ⟨t, n, rfl, hadd⟩ <;> rw [hadd]
  exact congrArg some (Table.unknown_put t i.tag i.kind n)

/-- What is chosen by the word of a kind is found beside them. -/
theorem select_cleared (m : Medium) (k : SignalKind) {q : Query}
    (hq : q = .ofKind k.word ∨ ∃ tag, q = .ofKey tag k.word) : m.cleared.select q = m.select q := by
  have hrecords : ∀ t : Table, q.records t.known = q.records t := by
    intro t
    rcases hq with rfl | ⟨tag, rfl⟩
    · exact congrArg Except.ok (Table.filter_known fun c hc => by simpa using hc)
    · have hfilter : ∀ text, (t.known.filter fun c => text == some c.1.1 && c.1.2 == k.word) =
          t.filter fun c => text == some c.1.1 && c.1.2 == k.word := fun text =>
        Table.filter_known fun c hc => by simpa using (Bool.and_eq_true_iff.1 hc).2
      simp only [Query.records, hfilter]
  rw [select, table?_cleared, select]
  cases m.table? with
  | none => rfl
  | some t => simp only [Option.map_some, hrecords]

end Medium

/-- A request that is about one kind. -/
def Operation.isOfOneKind : Operation → Bool
  | .upsert .. | .get .. | .byKind _ | .usage _ | .frequent .. => true
  | _ => false

theorem Operation.isPlain_of_isOfOneKind {o : Operation} (ho : o.isOfOneKind) : o.isPlain := by
  cases o <;> first | rfl | cases ho

namespace DatabaseStore

variable {d : DatabaseStore} {o : Operation} {os : List Operation}

/-- The same database without the rows of no known kind. -/
def cleared (d : DatabaseStore) : DatabaseStore := { d with medium := d.medium.cleared }

theorem upsert_cleared (d : DatabaseStore) (tag : Value) (kind : GivenKind) (delta : Value) :
    d.cleared.upsert tag kind delta = ((d.upsert tag kind delta).1.cleared, (d.upsert tag kind delta).2) := by
  unfold upsert
  cases Increment.ofGiven tag kind delta with
  | error f => rfl
  | ok i =>
    have hconnected : d.cleared.connected = d.connected := rfl
    simp only [hconnected]
    cases d.connected with
    | false => rfl
    | true =>
      have hadd : d.cleared.medium.add i = ((d.medium.add i).1.cleared, (d.medium.add i).2) := d.medium.add_cleared i
      simp only [if_true, hadd]
      rfl

theorem unknown_upsert (d : DatabaseStore) (tag : Value) (kind : GivenKind) (delta : Value) :
    (d.upsert tag kind delta).1.connected = d.connected ∧
      (d.upsert tag kind delta).1.medium.table?.map Table.unknown = d.medium.table?.map Table.unknown := by
  unfold upsert
  cases Increment.ofGiven tag kind delta with
  | error f => exact ⟨rfl, rfl⟩
  | ok i =>
    dsimp only
    split
    · exact ⟨rfl, d.medium.unknown_add i⟩
    · exact ⟨rfl, rfl⟩

theorem select_cleared (d : DatabaseStore) (k : SignalKind) {q : Query}
    (hq : q = .ofKind k.word ∨ ∃ tag, q = .ofKey tag k.word) : d.cleared.select q = d.select q := by
  have hmedium : d.cleared.medium.select q = d.medium.select q := d.medium.select_cleared k hq
  rw [select, select, hmedium]
  rfl

theorem get_cleared (d : DatabaseStore) (tag : Value) (kind : GivenKind) :
    d.cleared.get tag kind = d.get tag kind := by
  cases kind with
  | other v => rfl
  | kind k => exact congrArg (Except.map List.head?) (d.select_cleared k (.inr ⟨tag, rfl⟩))

theorem byKind_cleared (d : DatabaseStore) (kind : GivenKind) : d.cleared.byKind kind = d.byKind kind := by
  cases kind with
  | other v => rfl
  | kind k => exact d.select_cleared k (.inl rfl)

theorem usage_cleared (d : DatabaseStore) (kind : GivenKind) :
    (Store.database d.cleared).usage kind = (Store.database d).usage kind := by
  simp only [Store.usage, Store.byKind, byKind_cleared]

/-- **One request.** A database and the one without rows of no known kind answer alike, and go on in this way. -/
theorem perform_cleared (d : DatabaseStore) (ho : o.isOfOneKind) : ∃ d' r,
    (Store.database d).perform o = (.database d', r) ∧
      (Store.database d.cleared).perform o = (.database d'.cleared, r) ∧
      d'.connected = d.connected ∧ d'.medium.table?.map Table.unknown = d.medium.table?.map Table.unknown := by
  cases o with
  | upsert tag kind delta =>
    obtain ⟨hconnected, hunknown⟩ := d.unknown_upsert tag kind delta
    refine ⟨(d.upsert tag kind delta).1, (d.upsert tag kind delta).2.map .count, rfl, ?_, hconnected, hunknown⟩
    rw [Store.perform, Store.upsert, upsert_cleared]
  | get tag kind => exact ⟨d, _, rfl, by simp only [Store.perform, Store.get, get_cleared], rfl, rfl⟩
  | byKind kind => exact ⟨d, _, rfl, by simp only [Store.perform, Store.byKind, byKind_cleared], rfl, rfl⟩
  | usage kind => exact ⟨d, _, rfl, by simp only [Store.perform, usage_cleared], rfl, rfl⟩
  | frequent kind minShare =>
    exact ⟨d, _, rfl, by simp only [Store.perform, Store.frequent, usage_cleared], rfl, rfl⟩
  | _ => cases ho

/-- **A run of requests.** -/
theorem performAll_cleared (d : DatabaseStore) (hos : ∀ o ∈ os, o.isOfOneKind) : ∃ d' rs,
    (Store.database d).performAll os = (.database d', rs) ∧
      (Store.database d.cleared).performAll os = (.database d'.cleared, rs) ∧
      d'.connected = d.connected ∧ d'.medium.table?.map Table.unknown = d.medium.table?.map Table.unknown := by
  induction os generalizing d with
  | nil => exact ⟨d, [], rfl, rfl, rfl, rfl⟩
  | cons o os ih =>
    obtain ⟨ho, hos⟩ := List.forall_mem_cons.1 hos
    obtain ⟨d₁, r, hperform, hcleared, hconnected, hunknown⟩ := d.perform_cleared ho
    obtain ⟨d', rs, hrest, hrest', hconnected', hunknown'⟩ := ih d₁ hos
    refine ⟨d', r :: rs, ?_, ?_, hconnected'.trans hconnected, hunknown'.trans hunknown⟩
    · simp only [Store.performAll, hperform, hrest]
    · simp only [Store.performAll, hcleared, hrest']

/-- A database that is opened first goes on as an open one. -/
theorem performAll_connect (hclosed : d.connected = false) (htable : d.medium.table?.isSome = true)
    (os : List Operation) : (Store.database d).performAll (.connect :: os) =
      (((Store.database (d.turned true)).performAll os).1,
        .ok .nothing :: ((Store.database (d.turned true)).performAll os).2) := by
  have hconnect : (Store.database (d.turned false)).perform .connect = _ := perform_connect_of_table htable
  rw [turned_of_connected_eq hclosed] at hconnect
  simp only [Store.performAll, hconnect]

/-- What reading all rows of an open database comes to. -/
theorem rows_eq {t : Table} (hconnected : d.connected = true) (ht : d.medium.table? = some t) :
    (∀ f, d.rows = .error f ↔ ∃ c, t.unknown.head? = some c ∧ f = .unknownStoredKind c.1.2) ∧
      (t.unknown = [] → ∃ rs, d.rows = .ok rs ∧
        ∀ k : SignalKind, d.byKind (.kind k) = .ok (rs.filter fun r => r.kind = k)) := by
  have hrows : d.rows = t.mapM Table.rowOf := select_eq hconnected ht (q := .all) rfl
  have hkind : ∀ k : SignalKind, d.byKind (.kind k) = (t.filter fun c => c.1.2 == k.word).mapM Table.rowOf :=
    fun k => select_eq hconnected ht (q := .ofKind k.word) rfl
  simp only [hrows, hkind]
  exact t.mapM_rowOf_eq

end DatabaseStore

/-! ### Services -/

/-- What comes of a step that is waited for. -/
def Observation.completion? : Observation → Option Completion
  | .submitted => none
  | .performed completion _ _ => completion

/-- What comes of requests is what the store answers. -/
theorem Store.map_completion?_observe (s : Store) (os : List Operation) :
    (s.observe os).map Observation.completion? = (s.performAll os).2.map some := by
  induction os generalizing s with
  | nil => rfl
  | cons o os ih =>
    rw [Store.observe, List.map_cons, ih, Store.performAll]
    rfl

namespace Service

/-- **Rows of no known kind.** A service begins with a database that is not open and has a table, in which some rows may
be of no known kind. It is opened, and then asked to add to the counts of a kind and to look up a key or a kind, with
any arguments and in any order. Then every request comes to what it comes to on the same database without the rows of
no known kind. These rows stay as they are. Who reads all rows at any point fails exactly if there is such a row, for
the word of the first of them, which is an invalid value; and else reads rows among which those of each kind are the
rows that are read for this kind, in the same order. -/
theorem unknown_rows_isolated (u : Updater) (d : DatabaseStore) {t : Table} (hclosed : d.connected = false)
    (ht : d.medium.table? = some t) (os : List Operation) (hos : ∀ o ∈ os, o.isOfOneKind) :
    let steps := (.connect :: os).map Step.operation
    (∃ seen shown, (ofUpdater { u with store := .database d }).performAll steps = .ok seen ∧
      (ofUpdater { u with store := .database d.cleared }).performAll steps = .ok shown ∧
      seen = (Store.database d).observe (.connect :: os) ∧
      seen.map Observation.completion? = shown.map Observation.completion?) ∧
    ∃ d' t', ((Store.database d).performAll (.connect :: os)).1 = .database d' ∧ d'.medium.table? = some t' ∧
      t'.unknown = t.unknown ∧
      (∀ f, d'.rows = .error f ↔ ∃ c, t'.unknown.head? = some c ∧ f = .unknownStoredKind c.1.2) ∧
      (∀ f, d'.rows = .error f → f.category = .invalidValue) ∧
      (t'.unknown = [] → ∃ rs, d'.rows = .ok rs ∧
        ∀ k : SignalKind, d'.byKind (.kind k) = .ok (rs.filter fun r => r.kind = k)) := by
  intro steps
  have hplain : ∀ o ∈ .connect :: os, Operation.isPlain o :=
    List.forall_mem_cons.2 ⟨rfl, fun o ho => Operation.isPlain_of_isOfOneKind (hos o ho)⟩
  have hseen : ∀ e : DatabaseStore, e.connected = false →
      (ofUpdater { u with store := .database e }).performAll steps =
        .ok ((Store.database e).observe (.connect :: os)) := by
    intro e he
    refine (atRest_ofUpdater _ fun s hs => ?_).performAll hplain
    obtain rfl := Store.database.inj hs
    exact he
  -- the first step opens both databases, and the others find them open
  obtain ⟨d', rs, hrun, hcleared, hconnected, hunknown⟩ := (d.turned true).performAll_cleared hos
  have hopen := DatabaseStore.performAll_connect hclosed (by rw [ht]; rfl) os
  have hopen' := DatabaseStore.performAll_connect (d := d.cleared) hclosed
    (by rw [DatabaseStore.cleared, Medium.table?_cleared, ht]; rfl) os
  have hturned : d.cleared.turned true = (d.turned true).cleared := rfl
  rw [hrun] at hopen
  rw [hturned, hcleared] at hopen'
  constructor
  · refine ⟨_, _, hseen d hclosed, hseen d.cleared hclosed, rfl, ?_⟩
    rw [Store.map_completion?_observe, Store.map_completion?_observe, hopen, hopen']
  · obtain ⟨t', ht', htt'⟩ := Option.map_eq_some_iff.1 (hunknown.trans (congrArg (Option.map Table.unknown) ht))
    obtain ⟨herror, hok⟩ := DatabaseStore.rows_eq hconnected ht'
    refine ⟨d', t', by rw [hopen], ht', htt', herror, fun f hf => ?_, hok⟩
    obtain ⟨c, -, rfl⟩ := (herror f).1 hf
    rfl

/-- A row of an unknown kind beside a row with the same tag, which is counted once more. -/
theorem unknown_rows_isolated_of_same_tag :
    let t : Table := [(("en", "other"), .whole 5), (("en", SignalKind.classifyText.word), .whole 2)]
    let d : DatabaseStore := { path := "profile.db", medium := .table t }
    let os : List Operation := [.upsert (.text "en") (.kind .classifyText) (.whole 1), .byKind (.kind .classifyText),
      .frequent (.kind .classifyText) (.whole 1)]
    d.connected = false ∧ d.medium.table? = some t ∧ (∀ o ∈ os, o.isOfOneKind) ∧
      d.cleared.medium = .table [(("en", SignalKind.classifyText.word), .whole 2)] ∧
      (∃ seen shown, (ofUpdater { store := .database d }).performAll ((.connect :: os).map .operation) = .ok seen ∧
        (ofUpdater { store := .database d.cleared }).performAll ((.connect :: os).map .operation) = .ok shown ∧
        seen.map Observation.completion? = shown.map Observation.completion?) ∧
      ∃ d', ((Store.database d).performAll (.connect :: os)).1 = .database d' ∧
        d'.rows = .error (.unknownStoredKind "other") := by
  intro t d os
  have hos : ∀ o ∈ os, o.isOfOneKind := by decide
  have hcleared : d.cleared.medium = .table [(("en", SignalKind.classifyText.word), .whole 2)] := by decide +kernel
  obtain ⟨⟨seen, shown, hseen, hshown, -, hsame⟩, d', t', hrun, -, hunknown, hrows, -⟩ :=
    unknown_rows_isolated { store := .database d } d rfl rfl os hos
  have hhead : t.unknown.head? = some (("en", "other"), .whole 5) := by decide +kernel
  exact ⟨rfl, rfl, hos, hcleared, ⟨seen, shown, hseen, hshown, hsame⟩, d', hrun,
    (hrows _).2 ⟨_, hunknown ▸ hhead, rfl⟩⟩

end Service

end LanguageUsage
