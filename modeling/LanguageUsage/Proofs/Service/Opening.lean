import LanguageUsage.Files.Database
import LanguageUsage.Proofs.Service.Failure

/-!
# Databases that cannot be opened

Opening a database fails if there is nothing to be opened, or if what is opened has no table. In the first case the
store is not connected, as before. In the second one it takes itself to be connected: it is opened once more without a
fault, and every use of it fails as a use of an open database does.

* `Operation.isSingle`: all operations but those that are made of several;
* `DatabaseStore.Continues`: what such operations keep of a database;
* `DatabaseStore.connect_eq_error_iff`: when opening fails;
* `DatabaseStore.observe_not_found`, `DatabaseStore.observe_half_open`: what is seen after it failed;
* `Service.opening_failures`: and what a service shows after any operations.
-/

namespace LanguageUsage

/-- An operation that is not made of several ones. -/
def Operation.isSingle : Operation → Bool
  | .gather _ | .session _ => false
  | _ => true

theorem Operation.Proper.isSingle {o : Operation} (ho : o.Proper) : o.isSingle = true := by
  cases ho <;> rfl

/-- What is seen of operations one after another, when more follow. -/
theorem Store.observe_append (s : Store) (os os' : List Operation) :
    s.observe (os ++ os') = s.observe os ++ (s.performAll os).1.observe os' := by
  induction os generalizing s with
  | nil => rfl
  | cons o os ih =>
    rw [List.cons_append, observe, observe, performAll, ih]
    rfl

theorem Store.length_observe (s : Store) (os : List Operation) : (s.observe os).length = os.length := by
  induction os generalizing s with
  | nil => rfl
  | cons o os ih => rw [observe, List.length_cons, List.length_cons, ih]

theorem Store.carriesAll_append {s : Store} {os os' : List Operation} (h : s.CarriesAll os)
    (h' : (s.performAll os).1.CarriesAll os') : s.CarriesAll (os ++ os') := by
  induction os generalizing s with
  | nil => exact h'
  | cons o os ih => exact ⟨h.1, ih h.2 h'⟩

namespace Medium

variable {m : Medium}

theorem add_of_table?_eq_none (hm : m.table? = none) (i : Increment) :
    m.add i = (m, .error (.cannotIncrement i.tag i.kind)) := by
  rw [add, hm]

theorem emptied_of_table?_eq_none (hm : m.table? = none) : m.emptied = m := by
  cases m with
  | table t => cases hm
  | _ => rfl

theorem isSome_table?_emptied (m : Medium) : m.emptied.table?.isSome = m.table?.isSome := by
  cases m <;> rfl

@[simp] theorem emptied_emptied (m : Medium) : m.emptied.emptied = m.emptied := by
  cases m <;> rfl

theorem found_of_table?_eq_some {t : Table} (hm : m.table? = some t) (path : String) : m.found path = .ok () := by
  cases m with
  | table _ => rfl
  | sealed _ => rfl
  | _ => cases hm

theorem eq_foreign_of_found {path : String} (hm : m.table? = none) (h : m.found path = .ok ()) : m = .foreign := by
  cases m with
  | foreign => rfl
  | table _ => cases hm
  | sealed _ => cases hm
  | _ => cases h

/-- What is seen of a database that fails to open by `f`, then of a request to it, and then of opening it again. -/
inductive FailsToOpen (m : Medium) (path : String) : Fault → List Observation → Prop
  /-- there is nothing that can be opened: the request finds the store unconnected, and opening fails again -/
  | notFound {f : Fault} (h : m.found path = .error f) : FailsToOpen m path f
      [.plain (.error f) (.error .notConnected), .plain (.error .notConnected) (.error .notConnected),
        .plain (.error f) (.error .notConnected)]
  /-- a file of another format was opened: the request fails otherwise, and the store is opened again -/
  | halfOpen {g : Fault} (hm : m = .foreign) (hg : g.category = .storeFailure) (hg' : g ≠ .notConnected) :
      FailsToOpen m path (.cannotOpen path)
        [.plain (.error (.cannotOpen path)) (.error .cannotRead), .plain (.error g) (.error .cannotRead),
          .plain (.ok .nothing) (.error .cannotRead)]

end Medium

namespace DatabaseStore

variable {d d' : DatabaseStore} {o : Operation} {os : List Operation} {f : Fault}

/-! ### Operations before -/

/-- What single operations on a database keep: its path, whether it has a table, and all of the medium if it has none.
It does not lose anything if it is closed without being open. -/
structure Continues (d d' : DatabaseStore) : Prop where
  path : d'.path = d.path
  table : d'.medium.table?.isSome = d.medium.table?.isSome
  medium : d.medium.table? = none → d'.medium = d.medium
  keeps : d'.connected = false → d'.remains = d'.medium

theorem Continues.refl (h : d.connected = false → d.remains = d.medium) : d.Continues d :=
  ⟨rfl, rfl, fun _ => rfl, h⟩

theorem Continues.table?_eq_none_iff (h : d.Continues d') : d'.medium.table? = none ↔ d.medium.table? = none := by
  rw [← Option.not_isSome_iff_eq_none, ← Option.not_isSome_iff_eq_none, h.table]

theorem Continues.connect (h : d.Continues d') : d.Continues d'.connect.1 := by
  unfold DatabaseStore.connect
  split
  · exact h
  · split
    · exact h
    · exact ⟨h.path, h.table, h.medium, nofun⟩

theorem Continues.close (h : d.Continues d') : d.Continues d'.close := by
  refine ⟨h.path, ?_, fun hnone => ?_, fun _ => ?_⟩
  · simp only [DatabaseStore.close, remains]
    split
    · exact h.table
    · exact (Medium.isSome_table?_emptied _).trans h.table
  · have hmedium := h.medium hnone
    simp only [DatabaseStore.close, remains, hmedium, Medium.emptied_of_table?_eq_none hnone, ite_self]
  · simp only [DatabaseStore.close, remains]
    split
    · rfl
    · exact Medium.emptied_emptied _

theorem Continues.upsert (h : d.Continues d') (tag : Value) (kind : GivenKind) (delta : Value) :
    d.Continues (d'.upsert tag kind delta).1 := by
  unfold DatabaseStore.upsert
  split
  · exact h
  · next i _ =>
    split
    · next hconnected =>
      refine ⟨h.path, (isSome_table?_add _ i).trans h.table, fun hnone => ?_, fun hclosed => ?_⟩
      · have hmedium := h.medium hnone
        rw [← hmedium] at hnone
        exact (congrArg Prod.fst (Medium.add_of_table?_eq_none hnone i)).trans hmedium
      · cases hconnected.symm.trans hclosed
    · exact h

/-- One operation. -/
theorem Continues.perform (h : d.Continues d') (ho : o.isSingle = true) :
    ∃ d'', ((Store.database d').perform o).1 = .database d'' ∧ d.Continues d'' := by
  cases o with
  | connect => exact ⟨_, rfl, h.connect⟩
  | close => exact ⟨_, rfl, h.close⟩
  | upsert tag kind delta => exact ⟨_, rfl, h.upsert tag kind delta⟩
  | gather _ => cases ho
  | session _ => cases ho
  | _ => exact ⟨d', rfl, h⟩

theorem Continues.carries (h : d.Continues d') (ho : o.isSingle = true) : (Store.database d').Carries o := by
  cases o with
  | close =>
    intro s hs
    obtain rfl := Store.database.inj hs
    exact h.keeps
  | gather _ => cases ho
  | session _ => cases ho
  | _ => trivial

/-- **Operations one after another.** -/
theorem Continues.performAll (h : d.Continues d') (hos : ∀ o ∈ os, o.isSingle = true) :
    (Store.database d').CarriesAll os ∧
      ∃ d'', ((Store.database d').performAll os).1 = .database d'' ∧ d.Continues d'' := by
  induction os generalizing d' with
  | nil => exact ⟨trivial, d', rfl, h⟩
  | cons o os ih =>
    obtain ⟨ho, hos⟩ := List.forall_mem_cons.1 hos
    obtain ⟨d₁, hperform, h₁⟩ := h.perform ho
    obtain ⟨hcarries, d₂, hrest, h₂⟩ := ih h₁ hos
    refine ⟨⟨h.carries ho, hperform ▸ hcarries⟩, d₂, ?_, h₂⟩
    simp only [Store.performAll, hperform, hrest]

/-! ### Opening -/

theorem connect_not_found (hclosed : d.connected = false) (hfound : d.medium.found d.path = .error f) :
    d.connect = (d, .error f) := by
  rw [connect, hclosed, if_neg Bool.false_ne_true, hfound]

theorem connect_half_open (hclosed : d.connected = false) (hforeign : d.medium = .foreign) :
    d.connect = (d.turned true, .error (.cannotOpen d.path)) := by
  simp only [connect, hclosed, hforeign, turned]
  rfl

/-- Opening fails for a database that is not open and has no table. -/
theorem connect_eq_error_iff (d : DatabaseStore) :
    (∃ f, d.connect.2 = .error f) ↔ d.medium.table? = none ∧ d.connected = false := by
  cases hconnected : d.connected with
  | true =>
    have hopen : d.connect = (d, .ok ()) := if_pos hconnected
    simp [hopen]
  | false =>
    cases htable : d.medium.table? with
    | none =>
      refine iff_of_true ?_ ⟨rfl, rfl⟩
      cases hfound : d.medium.found d.path with
      | error f => exact ⟨f, congrArg Prod.snd (connect_not_found hconnected hfound)⟩
      | ok _ => exact ⟨_, congrArg Prod.snd (connect_half_open hconnected (Medium.eq_foreign_of_found htable hfound))⟩
    | some t =>
      have hopen : d.connect = (d.turned true, .ok ()) := by
        rw [connect, hconnected, if_neg Bool.false_ne_true, Medium.found_of_table?_eq_some htable, Medium.prepared, htable]
        rfl
      simp [hopen]

/-- A database is not open if this is said of its rows. -/
theorem rows_eq_notConnected_iff (d : DatabaseStore) : d.rows = .error .notConnected ↔ d.connected = false := by
  rw [rows, select]
  cases hconnected : d.connected with
  | false => exact iff_of_true rfl rfl
  | true =>
    refine iff_of_false (fun h => ?_) (by decide)
    replace h : d.medium.select .all = .error .notConnected := h
    rw [Medium.select] at h
    split at h
    · cases h
    · next t _ =>
      replace h : t.mapM Table.rowOf = .error .notConnected := h
      obtain ⟨-, -, word, -, -, -, -, -, hword⟩ := Table.mapM_rowOf_eq_error_iff.1 h
      cases hword

/-- Nothing was found that could be opened. -/
theorem observe_not_found (hclosed : d.connected = false) (hfound : d.medium.found d.path = .error f) (ho : o.Proper) :
    d.medium.FailsToOpen d.path f ((Store.database d).observe [.connect, o, .connect]) := by
  have hturned : d.turned false = d := by rw [turned, ← hclosed]
  have hrefused : (Store.database d).perform o = (.database d, .error .notConnected) := hturned ▸ perform_refused ho
  have hconnect : (Store.database d).perform .connect = (.database d, .error f) := by
    rw [Store.perform, Store.connect, connect_not_found hclosed hfound]
    rfl
  have hrows : (Store.database d).rows = .error .notConnected := (rows_eq_notConnected_iff d).2 hclosed
  simp only [Store.observe, hconnect, hrefused, hrows]
  exact .notFound hfound

/-- A request to a database that is open without a table fails, and changes nothing. -/
theorem perform_half_open (hopen : d.connected = true) (hnone : d.medium.table? = none) (ho : o.Proper) :
    ∃ g : Fault, g.category = .storeFailure ∧ g ≠ .notConnected ∧
      (Store.database d).perform o = (.database d, .error g) := by
  have hselect : ∀ q, d.select q = .error .cannotRead := by
    intro q
    rw [select, if_pos hopen, Medium.select, hnone]
  cases ho with
  | @upsert tag k delta n htag hdelta hn =>
    obtain ⟨i, hgiven, -, -⟩ := Increment.ofGiven_proper htag k hdelta hn
    refine ⟨.cannotIncrement i.tag i.kind, rfl, by simp, ?_⟩
    have hup : d.upsert (.text tag) (.kind k) delta = (d, .error (.cannotIncrement i.tag i.kind)) := by
      rw [upsert, hgiven]
      simp only [if_pos hopen, Medium.add_of_table?_eq_none hnone i]
    rw [Store.perform, Store.upsert, hup]
    rfl
  | get tag k =>
    refine ⟨.cannotRead, rfl, by decide, ?_⟩
    have hget : d.get (.text tag) (.kind k) = (d.select (.ofKey (.text tag) k.word)).map List.head? := rfl
    rw [Store.perform, Store.get, hget, hselect]
    rfl
  | rows =>
    refine ⟨.cannotRead, rfl, by decide, ?_⟩
    rw [Store.perform, Store.rows, rows, hselect]
    rfl
  | byKind k =>
    refine ⟨.cannotRead, rfl, by decide, ?_⟩
    have hbyKind : d.byKind (.kind k) = d.select (.ofKind k.word) := rfl
    rw [Store.perform, Store.byKind, hbyKind, hselect]
    rfl

/-- A file of another format was opened. -/
theorem observe_half_open (hclosed : d.connected = false) (hforeign : d.medium = .foreign) (ho : o.Proper) :
    d.medium.FailsToOpen d.path (.cannotOpen d.path) ((Store.database d).observe [.connect, o, .connect]) := by
  have hnone : (d.turned true).medium.table? = none := congrArg Medium.table? hforeign
  obtain ⟨g, hg, hg', hperform⟩ := perform_half_open (d := d.turned true) rfl hnone ho
  have hconnect : (Store.database d).perform .connect =
      (.database (d.turned true), .error (.cannotOpen d.path)) := by
    rw [Store.perform, Store.connect, connect_half_open hclosed hforeign]
    rfl
  have hagain : (Store.database (d.turned true)).perform .connect = (.database (d.turned true), .ok .nothing) := rfl
  have hrows : (Store.database (d.turned true)).rows = .error .cannotRead := by
    show (d.turned true).medium.select .all = .error .cannotRead
    rw [Medium.select, hnone]
  simp only [Store.observe, hconnect, hperform, hagain, hrows]
  exact .halfOpen hforeign hg hg'

/-- **How opening fails, and what comes after.** -/
theorem observe_opening (d : DatabaseStore) (ho : o.Proper) : ∃ first rows rest,
    (Store.database d).observe [.connect, o, .connect] = .plain first rows :: rest ∧
      ((∃ f, first = .error f) ↔ d.medium.table? = none ∧ d.connected = false) ∧
      ∀ f, first = .error f → d.medium.FailsToOpen d.path f (.plain first rows :: rest) := by
  have hfirst : ((Store.database d).perform .connect).2 = d.connect.2.map fun _ => .nothing := rfl
  refine ⟨_, _, _, rfl, ?_, fun f hf => ?_⟩
  · rw [hfirst]
    simp only [map_eq_error_iff]
    exact d.connect_eq_error_iff
  · have hfault : d.connect.2 = .error f := map_eq_error_iff.1 (hfirst.symm.trans hf)
    obtain ⟨hnone, hclosed⟩ := d.connect_eq_error_iff.1 ⟨f, hfault⟩
    cases hfound : d.medium.found d.path with
    | error g =>
      obtain rfl : g = f := Except.error.inj ((congrArg Prod.snd (connect_not_found hclosed hfound)).symm.trans hfault)
      exact observe_not_found hclosed hfound ho
    | ok _ =>
      have hforeign : d.medium = .foreign := Medium.eq_foreign_of_found hnone hfound
      obtain rfl : .cannotOpen d.path = f :=
        Except.error.inj ((congrArg Prod.snd (connect_half_open hclosed hforeign)).symm.trans hfault)
      exact observe_half_open hclosed hforeign ho

end DatabaseStore

namespace Tree

/-- A database at a path is not open, and has nothing to lose. -/
theorem openDatabase_spec (t : Tree) (path : String) :
    (t.openDatabase path).2.path = path ∧ (t.openDatabase path).2.connected = false ∧
      (t.openDatabase path).2.remains = (t.openDatabase path).2.medium := by
  unfold openDatabase
  split
  · next h => exact ⟨h.symm, rfl, rfl⟩
  · dsimp only
    split
    · exact ⟨rfl, rfl, rfl⟩
    · exact ⟨rfl, rfl, rfl⟩
    · exact ⟨rfl, rfl, rfl⟩
    · split
      · exact ⟨rfl, rfl, rfl⟩
      · split
        · exact ⟨rfl, rfl, rfl⟩
        · next a _ =>
          refine ⟨rfl, rfl, ?_⟩
          cases hfile : a.file with
          | some file => rfl
          | none =>
            simp only [DatabaseStore.remains, openAddress, hfile, Option.isSome_none, Bool.false_eq_true, if_false]
            split <;> rfl

end Tree

namespace Service

/-- **How opening a database fails, and what comes after.** A service begins with the database at any path of any file
tree. After any single operations it is opened, asked by any proper request, and opened again. The first opening fails
if and only if the store was not connected and there is no table at the path. Either nothing was found that could be
opened; then the store is not connected, the request is refused for this reason, and the second opening fails like the
first. Or something of another format was opened; then the request fails, though not as one to a store that is not
connected, and the second opening succeeds. -/
theorem opening_failures (u : Updater) (t : Tree) (path : String) (os : List Operation)
    (hos : ∀ o ∈ os, o.isSingle = true) {o : Operation} (ho : o.Proper) :
    let d := (t.openDatabase path).2
    let service := ofUpdater { u with store := .database d }
    ∃ seen first rows rest,
      service.performAll ((os ++ [.connect, o, .connect]).map .operation) = .ok (seen ++ .plain first rows :: rest) ∧
      seen.length = os.length ∧
      ((∃ f, first = .error f) ↔
        d.medium.table? = none ∧ ((Store.database d).performAll os).1.rows = .error .notConnected) ∧
      ∀ f, first = .error f → d.medium.FailsToOpen path f (.plain first rows :: rest) := by
  intro d service
  obtain ⟨hpath, hclosed, hremains⟩ := t.openDatabase_spec path
  have hrest : service.AtRest := atRest_ofUpdater _ fun s hs => Store.database.inj hs ▸ hclosed
  -- what the operations before leave
  have hnew : d.Continues d := .refl fun _ => hremains
  obtain ⟨hcarries, d', hbefore, h⟩ := hnew.performAll hos
  have hfinal : ∀ o' ∈ [.connect, o, .connect], o'.isSingle = true := by
    simp only [List.forall_mem_cons, List.not_mem_nil, false_imp_iff, implies_true, and_true]
    exact ⟨rfl, ho.isSingle, rfl⟩
  have hcarries' : (Store.database d').CarriesAll [.connect, o, .connect] := (h.performAll hfinal).1
  have hseen : service.performAll ((os ++ [.connect, o, .connect]).map .operation) =
      .ok ((Store.database d).observe os ++ (Store.database d').observe [.connect, o, .connect]) := by
    rw [hrest.performAll_of_carriesAll (Store.carriesAll_append hcarries (hbefore ▸ hcarries')), ← hbefore,
      ← Store.observe_append]
    rfl
  obtain ⟨first, rows, rest, hopening, hfails, hafter⟩ := d'.observe_opening ho
  refine ⟨_, first, rows, rest, hopening ▸ hseen, Store.length_observe _ _, ?_, fun f hf => ?_⟩
  · have hrows : (Store.database d').rows = .error .notConnected ↔ d'.connected = false := d'.rows_eq_notConnected_iff
    rw [hfails, hbefore, hrows, h.table?_eq_none_iff]
  · obtain ⟨hnone, -⟩ := hfails.1 ⟨f, hf⟩
    have hmedium : d'.medium = d.medium := h.medium (h.table?_eq_none_iff.1 hnone)
    have hpath' : d'.path = path := h.path.trans hpath
    rw [← hmedium, ← hpath']
    exact hafter f hf

/-- A file is in the way of the directories of a database, which is used, opened and closed before. -/
theorem opening_failures_behind_file :
    let t : Tree := ⟨[], .directory [("file", .file (.text "not a directory"))]⟩
    let path := "file/sub/profile.db"
    let d := (t.openDatabase path).2
    let count : Operation := .upsert (.text "en") (.kind .classifyText) (.whole 1)
    let os : List Operation := [count, .connect, .close, .connect]
    (∀ o ∈ os, o.isSingle = true) ∧ count.Proper ∧
      ∃ seen, (ofUpdater { store := .database d }).performAll ((os ++ [.connect, count, .connect]).map .operation) =
          .ok (seen ++ [.plain (.error (.cannotOpen path)) (.error .notConnected),
            .plain (.error .notConnected) (.error .notConnected),
            .plain (.error (.cannotOpen path)) (.error .notConnected)]) := by
  intro t path d count os
  have hd : d = { path := path, medium := .closedOff } := by decide +kernel
  have hos : ∀ o ∈ os, o.isSingle = true := by decide +kernel
  have hcount : count.Proper := .upsert (n := 1) _ (by decide +kernel) rfl (Int.le_refl 1)
  obtain ⟨seen, first, rows, rest, hperformed, -, hfails, hafter⟩ :=
    opening_failures { store := .database d } t path os hos hcount
  have hbefore : ((Store.database d).performAll os).1.rows = .error .notConnected := by
    rw [hd]
    decide +kernel
  obtain ⟨f, hf⟩ := hfails.2 ⟨congrArg (·.medium.table?) hd, hbefore⟩
  have hshown := hafter f hf
  refine ⟨hos, hcount, seen, hperformed.trans ?_⟩
  generalize Observation.plain first rows :: rest = shown at hshown ⊢
  cases hshown with
  | notFound h =>
    obtain rfl : .cannotOpen path = f := Except.error.inj ((congrArg (·.medium.found path) hd).symm.trans h)
    rfl
  | halfOpen hm => cases (congrArg (·.medium) hd).symm.trans hm

/-- A database whose file holds something else is opened again without a fault, and still not read. -/
theorem opened_again_on_other_file :
    let t : Tree := ⟨[], .directory [("profile.db", .file (.text "no database"))]⟩
    let service := ofUpdater { store := .database (t.openDatabase "profile.db").2 }
    service.performAll ([.connect, .rows, .connect].map .operation) =
      .ok [.plain (.error (.cannotOpen "profile.db")) (.error .cannotRead),
        .plain (.error .cannotRead) (.error .cannotRead), .plain (.ok .nothing) (.error .cannotRead)] := by
  intro t service
  have hd : (t.openDatabase "profile.db").2 = { path := "profile.db", medium := .foreign } := by decide +kernel
  have hrest : service.AtRest := atRest_ofUpdater _ fun s hs => Store.database.inj hs ▸ congrArg (·.connected) hd
  rw [hrest.performAll (by decide +kernel)]
  show Except.ok ((Store.database (t.openDatabase "profile.db").2).observe [.connect, .rows, .connect]) = _
  rw [hd]
  rfl

end Service

end LanguageUsage
