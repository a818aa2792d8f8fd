import LanguageUsage.Proofs.Service.Agreement

/-!
# Databases that are closed and opened again

A database that keeps its rows may be closed and opened again between any two operations. Nothing is to be seen of
this by those who ask while it is open; those who ask while it is not are refused, and nothing else comes of it.

* `Operation.Proper`: a request with proper arguments; `Operation.Visit`: this, or to open or close the store;
* `Operation.whileOpen`: the requests that find the store open;
* `Shows`: what is seen of a store that is closed and opened again, told by what is seen of one that stays open;
* `DatabaseStore.Keeps.shows_observe`: this is what a database does;
* `Service.reopening_invisible`: and what a service shows.
-/

namespace LanguageUsage

/-! ### Operations -/

/-- A request with proper arguments. -/
inductive Operation.Proper : Operation → Prop
  | upsert {tag : String} (k : SignalKind) {delta : Value} {n : Int} (htag : Text.isBlank tag = false)
      (hdelta : delta.number? = some (.whole n)) (hn : 1 ≤ n) : Proper (.upsert (.text tag) (.kind k) delta)
  | get (tag : String) (k : SignalKind) : Proper (.get (.text tag) (.kind k))
  | rows : Proper .rows
  | byKind (k : SignalKind) : Proper (.byKind (.kind k))

/-- A proper request, or to open or close the store. -/
inductive Operation.Visit : Operation → Prop
  | connect : Visit .connect
  | close : Visit .close
  | request {o : Operation} (ho : o.Proper) : Visit o

/-- The requests that find the store open, which is `isOpen` at first. -/
def Operation.whileOpen : Bool → List Operation → List Operation
  | _, [] => []
  | _, .connect :: os => whileOpen true os
  | _, .close :: os => whileOpen false os
  | true, o :: os => o :: whileOpen true os
  | false, _ :: os => whileOpen false os

theorem Operation.Proper.whileOpen_cons {o : Operation} (ho : o.Proper) (isOpen : Bool) (os : List Operation) :
    whileOpen isOpen (o :: os) = if isOpen then o :: whileOpen true os else whileOpen false os := by
  cases ho <;> cases isOpen <;> rfl

theorem Operation.mem_of_mem_whileOpen {isOpen : Bool} {o : Operation} {os : List Operation}
    (h : o ∈ whileOpen isOpen os) : o ∈ os := by
  induction os generalizing isOpen with
  | nil => cases isOpen <;> cases h
  | cons o' os ih =>
    cases isOpen <;> cases o' <;> simp only [whileOpen, List.mem_cons] at h ⊢ <;> grind

/-- What is seen of operations on a store that is opened and closed, `seen`, goes with what is seen of the requests
among them that find it open on a store that stays open, `shown`. The rows of this are `rows` at first. -/
inductive Shows : Bool → Completion → List Operation → List Observation → List Observation → Prop
  | nil {isOpen : Bool} {rows : Completion} : Shows isOpen rows [] [] []
  | connect {isOpen : Bool} {rows : Completion} {os : List Operation} {seen shown : List Observation}
      (h : Shows true rows os seen shown) :
      Shows isOpen rows (.connect :: os) (.performed (some (.ok .nothing)) (some rows) [] :: seen) shown
  | close {isOpen : Bool} {rows : Completion} {os : List Operation} {seen shown : List Observation}
      (h : Shows false rows os seen shown) :
      Shows isOpen rows (.close :: os)
        (.performed (some (.ok .nothing)) (some (.error .notConnected)) [] :: seen) shown
  | request {rows rows' r : Completion} {o : Operation} {os : List Operation} {seen shown : List Observation}
      (ho : o.Proper) (h : Shows true rows' os seen shown) :
      Shows true rows (o :: os) (.performed (some r) (some rows') [] :: seen)
        (.performed (some r) (some rows') [] :: shown)
  | refusal {rows : Completion} {o : Operation} {os : List Operation} {seen shown : List Observation}
      (ho : o.Proper) (h : Shows false rows os seen shown) :
      Shows false rows (o :: os)
        (.performed (some (.error .notConnected)) (some (.error .notConnected)) [] :: seen) shown

/-! ### Databases -/

namespace DatabaseStore

variable {d : DatabaseStore} {o : Operation} {isOpen : Bool}

/-- The same database, open or not. -/
def turned (d : DatabaseStore) (isOpen : Bool) : DatabaseStore := { d with connected := isOpen }

theorem turned_of_connected_eq (h : d.connected = isOpen) : d.turned isOpen = d := by
  subst h
  rfl

/-- A database that keeps its rows, and whose table can be read. -/
structure Keeps (d : DatabaseStore) : Prop where
  lasting : d.lasting = true
  table : d.medium.table?.isSome = true

theorem isSome_table?_add (m : Medium) (i : Increment) : (m.add i).1.table?.isSome = m.table?.isSome := by
  rcases m.add_cases i with ⟨f, hadd⟩ | ⟨t, n, rfl, hadd⟩ <;> rw [hadd]
  rfl

/-- A database whose table can be read is open after it is opened, whether it was or not. -/
theorem perform_connect_of_table (htable : d.medium.table?.isSome = true) :
    (Store.database (d.turned isOpen)).perform .connect = (.database (d.turned true), .ok .nothing) := by
  cases isOpen with
  | true => rfl
  | false =>
    cases hm : d.medium <;> simp [hm, Medium.table?] at htable <;>
      simp [Store.perform, Store.connect, connect, turned, hm, Medium.found, Medium.prepared, Medium.table?,
        Except.map]

theorem Keeps.perform_connect (h : d.Keeps) : (Store.database (d.turned isOpen)).perform .connect =
    (.database (d.turned true), .ok .nothing) := perform_connect_of_table h.table

theorem Keeps.perform_close (h : d.Keeps) : (Store.database (d.turned isOpen)).perform .close =
    (.database (d.turned false), .ok .nothing) := by
  have hremains : (d.turned isOpen).remains = d.medium := if_pos h.lasting
  rw [Store.perform, Store.close, close, hremains]
  rfl

/-- Who asks a database that is not open is refused, and changes nothing. -/
theorem perform_refused (ho : o.Proper) : (Store.database (d.turned false)).perform o =
    (.database (d.turned false), .error .notConnected) := by
  cases ho with
  | @upsert tag k delta n htag hdelta hn =>
    obtain ⟨i, hgiven, -, -⟩ := Increment.ofGiven_proper htag k hdelta hn
    have hup : (d.turned false).upsert (.text tag) (.kind k) delta = (d.turned false, .error .notConnected) := by
      rw [upsert, hgiven]
      rfl
    rw [Store.perform, Store.upsert, hup]
    rfl
  | _ => rfl

/-- A request leaves a database open, and its table readable. -/
theorem Keeps.perform_open (h : d.Keeps) (ho : o.Proper) : ∃ (d' : DatabaseStore) (r : Completion), d'.Keeps ∧
    (Store.database (d.turned true)).perform o = (.database (d'.turned true), r) := by
  cases ho with
  | @upsert tag k delta n htag hdelta hn =>
    obtain ⟨i, hgiven, -, -⟩ := Increment.ofGiven_proper htag k hdelta hn
    have hup : (d.turned true).upsert (.text tag) (.kind k) delta =
        (turned { d with medium := (d.medium.add i).1 } true, (d.medium.add i).2) := by
      rw [upsert, hgiven]
      rfl
    refine ⟨{ d with medium := (d.medium.add i).1 }, (d.medium.add i).2.map .count, ⟨h.lasting, ?_⟩, ?_⟩
    · exact (isSome_table?_add d.medium i).trans h.table
    · rw [Store.perform, Store.upsert, hup]
  | get tag k => exact ⟨d, _, h, rfl⟩
  | rows => exact ⟨d, _, h, rfl⟩
  | byKind k => exact ⟨d, _, h, rfl⟩

/-- **A database that is closed and opened again.** -/
theorem Keeps.shows_observe (h : d.Keeps) {os : List Operation} (hos : ∀ o ∈ os, o.Visit) :
    Shows isOpen ((Store.database (d.turned true)).rows.map .rows) os
      ((Store.database (d.turned isOpen)).observe os)
      ((Store.database (d.turned true)).observe (Operation.whileOpen isOpen os)) := by
  induction os generalizing d isOpen with
  | nil => cases isOpen <;> exact .nil
  | cons o os ih =>
    have hrest : ∀ o ∈ os, o.Visit := fun o ho => hos o (List.mem_cons_of_mem _ ho)
    cases hos o List.mem_cons_self with
    | connect =>
      rw [Store.observe, h.perform_connect]
      cases isOpen <;> exact .connect (ih h hrest)
    | close =>
      rw [Store.observe, h.perform_close]
      cases isOpen <;> exact .close (ih h hrest)
    | request ho =>
      rw [ho.whileOpen_cons]
      cases isOpen with
      | false =>
        rw [Store.observe, perform_refused ho]
        exact .refusal ho (ih h hrest)
      | true =>
        obtain ⟨d', r, h', hperform⟩ := h.perform_open ho
        rw [if_pos rfl, Store.observe, Store.observe, hperform]
        exact .request ho (ih h' hrest)

theorem Keeps.carriesAll (h : d.Keeps) {os : List Operation} (hos : ∀ o ∈ os, o.Visit) :
    (Store.database (d.turned isOpen)).CarriesAll os := by
  induction os generalizing d isOpen with
  | nil => trivial
  | cons o os ih =>
    have hrest : ∀ o ∈ os, o.Visit := fun o ho => hos o (List.mem_cons_of_mem _ ho)
    cases hos o List.mem_cons_self with
    | connect =>
      refine ⟨trivial, ?_⟩
      rw [h.perform_connect]
      exact ih h hrest
    | close =>
      refine ⟨fun s hs _ => ?_, ?_⟩
      · obtain rfl := Store.database.inj hs
        exact if_pos h.lasting
      · rw [h.perform_close]
        exact ih h hrest
    | request ho =>
      refine ⟨by cases ho <;> trivial, ?_⟩
      cases isOpen with
      | false =>
        rw [perform_refused ho]
        exact ih h hrest
      | true =>
        obtain ⟨d', r, h', hperform⟩ := h.perform_open ho
        rw [hperform]
        exact ih h' hrest

end DatabaseStore

namespace Service

/-- **Closing and opening a database again.** A service begins with a database that keeps its rows, is not open,
and has a table that can be read, empty or with rows that were stored before. It is opened and closed any number of
times between requests with proper arguments. What is seen is what is seen of the same requests, without those that
find it closed, if it is opened once before them: their results, and the rows after each. A request that finds it
closed is refused as a failure of the store. -/
theorem reopening_invisible (u : Updater) (d : DatabaseStore) (os : List Operation) (hd : d.Keeps)
    (hclosed : d.connected = false) (hos : ∀ o ∈ os, o.Visit) :
    let service := ofUpdater { u with store := .database d }
    ∃ rows seen shown, service.performAll (os.map .operation) = .ok seen ∧
      service.performAll ((.connect :: Operation.whileOpen false os).map .operation) =
        .ok (.performed (some (.ok .nothing)) (some rows) [] :: shown) ∧
      Shows false rows os seen shown ∧ Fault.notConnected.category = .storeFailure := by
  intro service
  have hrest : service.AtRest := atRest_ofUpdater _ fun s hs => Store.database.inj hs ▸ hclosed
  have hstore : service.store = .database (d.turned false) := by
    show Store.database d = _
    rw [DatabaseStore.turned, ← hclosed]
  have hused : ∀ o ∈ Operation.connect :: Operation.whileOpen false os, o.Visit := by
    intro o ho
    rcases List.mem_cons.1 ho with rfl | ho
    · exact .connect
    · exact hos o (Operation.mem_of_mem_whileOpen ho)
  refine ⟨_, _, _, hrest.performAll_of_carriesAll ?_, ?_, hstore ▸ hd.shows_observe hos, rfl⟩
  · exact hstore ▸ hd.carriesAll hos
  · rw [hrest.performAll_of_carriesAll (hstore ▸ hd.carriesAll hused), hstore, Store.observe, hd.perform_connect]

/-- A database with a row of an earlier time is used before it is opened, and again after it was closed. The first use
fails, and the two others are counted beside the earlier row. -/
theorem reopening_invisible_of_earlier_row :
    let d : DatabaseStore :=
      { path := "profile.db", medium := .table [(("en", SignalKind.classifyText.word), .whole 2)] }
    let count (tag : String) : Operation := .upsert (.text tag) (.kind .classifyText) (.whole 1)
    let os : List Operation := [count "en", .connect, count "zh", .close, .close, .rows, .connect, .connect, count "en"]
    let service := ofUpdater { store := .database d }
    let shut : Completion := .error .notConnected
    let holding (en : Int) (others : List Row) : Completion := .ok (.rows (⟨"en", .classifyText, .whole en⟩ :: others))
    let zh : List Row := [⟨"zh", .classifyText, .whole 1⟩]
    d.Keeps ∧ d.connected = false ∧ (∀ o ∈ os, o.Visit) ∧
      Operation.whileOpen false os = [count "zh", count "en"] ∧
      service.performAll (os.map .operation) = .ok [.plain shut shut, .plain (.ok .nothing) (holding 2 []),
        .plain (.ok (.count (.whole 1))) (holding 2 zh), .plain (.ok .nothing) shut, .plain (.ok .nothing) shut,
        .plain shut shut, .plain (.ok .nothing) (holding 2 zh), .plain (.ok .nothing) (holding 2 zh),
        .plain (.ok (.count (.whole 3))) (holding 3 zh)] ∧
      ∃ rows seen shown, service.performAll (os.map .operation) = .ok seen ∧
        service.performAll ([.connect, count "zh", count "en"].map .operation) =
          .ok (.performed (some (.ok .nothing)) (some rows) [] :: shown) ∧
        Shows false rows os seen shown := by
  intro d count os service shut holding zh
  have hd : d.Keeps := ⟨rfl, rfl⟩
  have hcount : ∀ tag, Text.isBlank tag = false → (count tag).Visit := fun tag htag =>
    .request (.upsert (n := 1) _ htag rfl (Int.le_refl 1))
  have hos : ∀ o ∈ os, o.Visit := by
    have hen := hcount "en" (by decide +kernel)
    have hzh := hcount "zh" (by decide +kernel)
    simp only [os, List.forall_mem_cons, List.not_mem_nil, false_imp_iff, implies_true, and_true]
    exact ⟨hen, .connect, hzh, .close, .close, .request .rows, .connect, .connect, hen⟩
  obtain ⟨rows, seen, shown, hseen, hshown, hshows, -⟩ :=
    reopening_invisible { store := .database d } d os hd rfl hos
  have hrest : service.AtRest := atRest_ofUpdater _ fun s hs => Store.database.inj hs ▸ rfl
  refine ⟨hd, rfl, hos, rfl, ?_, rows, seen, shown, hseen, hshown, hshows⟩
  have hcarries : (Store.database (d.turned false)).CarriesAll os := hd.carriesAll hos
  rw [hrest.performAll_of_carriesAll hcarries]
  show Except.ok ((Store.database d).observe os) = _
  let keeping (t : Table) (isOpen : Bool) : DatabaseStore := { d with medium := .table t, connected := isOpen }
  let both (en : Int) : Table := [(("en", "classify_text"), .whole en), (("zh", "classify_text"), .whole 1)]
  have hshut : d.upsert (.text "en") (.kind .classifyText) (.whole 1) = (d, .error .notConnected) := by decide +kernel
  have hconnect : d.connect = (keeping [(("en", "classify_text"), .whole 2)] true, .ok ()) := rfl
  have hzh : (keeping [(("en", "classify_text"), .whole 2)] true).upsert (.text "zh") (.kind .classifyText) (.whole 1) =
      (keeping (both 2) true, .ok (.whole 1)) := by decide +kernel
  have hclose : (keeping (both 2) true).close = keeping (both 2) false := rfl
  have hclose' : (keeping (both 2) false).close = keeping (both 2) false := rfl
  have hreconnect : (keeping (both 2) false).connect = (keeping (both 2) true, .ok ()) := rfl
  have hreconnect' : (keeping (both 2) true).connect = (keeping (both 2) true, .ok ()) := rfl
  have hen : (keeping (both 2) true).upsert (.text "en") (.kind .classifyText) (.whole 1) =
      (keeping (both 3) true, .ok (.whole 3)) := by decide +kernel
  simp only [os, count, Store.observe, Store.perform, Store.upsert, Store.connect, Store.close, hshut, hconnect, hzh,
    hclose, hclose', hreconnect, hreconnect', hen]
  rfl

end Service

end LanguageUsage
