import LanguageUsage.Proofs.Command.Settings

/-!
# Where settings come from

What a variable says is asked for first, then what the document gives, and where neither says anything there is a
default. A value that is there is taken as it is, also if there is nothing in it.

* `Settings.field?`: what a document gives for a field;
* `Settings.prioritized`: the settings, by variables, document and defaults;
* `Settings.overridden_of_ofDocument`, `Settings.exists_of_load`: settings come about in no other way;
* `Settings.NamedBy`: settings that take their database from a name that may be missing;
* `Settings.database_namedBy`: a database that is named as nothing is not replaced.
-/

namespace LanguageUsage

namespace Settings

variable {t t' : Tree} {e : Environment} {data : Value} {directory path : Path} {s : Settings}

/-! ### Fields -/

/-- What a document gives for a field of one of its parts. -/
def field? (data : Value) (part name : String) : Option Value :=
  match data with
  | .object parts =>
    match Value.Fields.get? parts part with
    | some (.object fields) => Value.Fields.get? fields name
    | _ => none
  | _ => none

/-- The settings of a directory: what is said by a variable, or else given by a document, or else the default. -/
def prioritized (e : Environment) (data : Value) (directory : Path) : Settings where
  directory := directory
  backend := ((given e.backend).map Value.text <|> field? data "storage" "backend").getD (.text "sqlite")
  database := ((given e.database).map Value.text <|> field? data "storage" "database").getD
    (.text (databaseIn directory))
  defaultKey := (field? data "updater" "default_notification_key").getD (.text defaultNotification)
  suppressReplays := ((given e.suppressReplays).map (fun w => Value.bool (isTrueWord w)) <|>
    field? data "updater" "suppress_replays").getD (.bool false)
  capacity := (field? data "updater" "replay_cache_size").getD (.whole 256)
  minShare := (field? data "profile" "frequent_min_share").getD defaultMinShare

theorem fieldOr_of_sectionOf {parts fields : Value.Fields} {part : String} (h : sectionOf parts part = .ok fields)
    (name : String) (default : Value) :
    fieldOr fields name default = (field? (.object parts) part name).getD default := by
  cases hpart : parts.get? part with
  | none =>
    simp only [sectionOf, hpart] at h
    obtain rfl := Except.ok.inj h
    simp only [field?, hpart]
    rfl
  | some v =>
    simp only [sectionOf, hpart] at h
    simp only [field?, hpart]
    split at h
    · next hv =>
      cases v with
      | object inner =>
        obtain rfl := Except.ok.inj h
        rfl
      | _ => cases h
    · next hv =>
      obtain rfl := Except.ok.inj h
      cases v with
      | object inner =>
        have hempty : inner = [] := by simpa [Value.isTruthy] using hv
        rw [hempty]
        rfl
      | _ => rfl

/-- The settings that a document gives, as far as the variables do not say otherwise. -/
theorem overridden_of_ofDocument (h : ofDocument data directory = .ok s) (e : Environment) :
    s.overridden e = prioritized e data directory := by
  cases data with
  | object parts =>
    obtain ⟨storage, hstorage, h⟩ := bind_eq_ok_iff.1 (show sectionOf parts "storage" >>= _ = .ok s from h)
    obtain ⟨updater, hupdater, h⟩ := bind_eq_ok_iff.1 h
    obtain ⟨profile, hprofile, h⟩ := bind_eq_ok_iff.1 h
    obtain rfl := Except.ok.inj h
    simp only [overridden, prioritized, Option.orElse_eq_orElse, Option.orElse_eq_or, Option.getD_or, new,
      fieldOr_of_sectionOf hstorage, fieldOr_of_sectionOf hupdater, fieldOr_of_sectionOf hprofile]
  | _ => cases h

/-! ### Files -/

/-- What a file of settings gives: the document in it, and nothing if it is not there. -/
def Gives (t : Tree) (path : Path) (data : Value) : Prop :=
  (∃ text, t.readText path = .ok text ∧ Document.read text = .ok data) ∨ t.isThere path = .ok false ∧ data = .object []

/-- What was read or created was given by the file. -/
theorem exists_of_readOrCreate (h : readOrCreate t path directory = (t', .ok s)) :
    ∃ data, Gives t path data ∧ ofDocument data directory = .ok s := by
  rw [readOrCreate] at h
  split at h
  · cases h
  · have hread : readFrom t path directory = .ok s := congrArg Prod.snd h
    obtain ⟨text, htext, hread⟩ := bind_eq_ok_iff.1 hread
    obtain ⟨data, hdata, hdocument⟩ := bind_eq_ok_iff.1 hread
    exact ⟨data, .inl ⟨text, htext, hdata⟩, hdocument⟩
  · next habsent =>
    refine ⟨.object [], .inr ⟨habsent, rfl⟩, ?_⟩
    rw [create] at h
    split at h
    · cases h
    · next t₁ hmade =>
      dsimp only at h
      cases hsave : (save t₁ (new directory) path).2 with
      | error f =>
        rw [hsave] at h
        cases h
      | ok u =>
        rw [hsave] at h
        obtain rfl : new directory = s := Except.ok.inj (congrArg Prod.snd h)
        rfl

/-- Settings that are loaded come from the variables, the document of the file and the defaults. -/
theorem exists_of_load {file : Option Path} (h : load t e file = (t', .ok s)) : ∃ path directory data,
    fileAndDirectory e file = .ok (path, directory) ∧ Gives t path data ∧ s = prioritized e data directory := by
  cases hfile : fileAndDirectory e file with
  | error f =>
    rw [load, hfile] at h
    cases h
  | ok place =>
    obtain ⟨path, directory⟩ := place
    simp only [load, hfile] at h
    cases hread : readOrCreate t path directory with
    | mk t₁ r =>
      rw [hread] at h
      cases r with
      | error f => cases h
      | ok s₀ =>
        obtain rfl : s₀.overridden e = s := Except.ok.inj (congrArg Prod.snd h)
        obtain ⟨data, hgives, hdocument⟩ := exists_of_readOrCreate hread
        exact ⟨path, directory, data, rfl, hgives, overridden_of_ofDocument hdocument e⟩

/-! ### The database -/

theorem isTruthy_databaseIn (directory : Path) : (Value.text (databaseIn directory)).isTruthy = true := by
  have hsize : databaseName.utf8ByteSize ≤ (databaseIn directory).utf8ByteSize := directory.utf8ByteSize_le_child _
  have hne : databaseIn directory ≠ "" := by
    intro h
    rw [h] at hsize
    exact absurd hsize (by decide)
  simpa [Value.isTruthy] using hne

/-- The database of the settings is the one that is named, and the one in their directory if none is named. -/
structure NamedBy (s : Settings) (name : Option Value) : Prop where
  database : s.database = name.getD (.text (databaseIn s.directory))
  isTruthy_iff : s.database.isTruthy = true ↔ ∀ v, name = some v → v.isTruthy = true
  completed_iff : s.completed = s ↔ ∀ v, name = some v → v.isTruthy = true

theorem namedBy_of_database {name : Option Value} (h : s.database = name.getD (.text (databaseIn s.directory))) :
    s.NamedBy name := by
  have htruthy : s.database.isTruthy = true ↔ ∀ v, name = some v → v.isTruthy = true := by
    rw [h]
    cases name with
    | none => simp [isTruthy_databaseIn]
    | some v => simp
  refine ⟨h, htruthy, Iff.trans ⟨fun hcompleted => ?_, fun hpresent => if_pos hpresent⟩ htruthy⟩
  by_contra hmissing
  have hfilled : s.completed.database = .text (databaseIn s.directory) := by rw [completed, if_neg hmissing]
  rw [hcompleted] at hfilled
  exact hmissing (hfilled ▸ isTruthy_databaseIn s.directory)

/-- **A database is filled in if it is not named, and not if it is named as nothing.** The name is what a variable says,
or else what the document gives. Settings without a name get the database in their directory, and any name is taken as
it is given. So there is a database, as there would be in settings that are completed, exactly if no name is given in
which there is nothing. -/
theorem database_namedBy (data : Value) (directory : Path) (t : Tree) (e : Environment) (file : Option Path) :
    (∀ s, ofDocument data directory = .ok s →
      s.directory = directory ∧ s.NamedBy (field? data "storage" "database")) ∧
    ∀ t' s, load t e file = (t', .ok s) → ∃ path directory data,
      fileAndDirectory e file = .ok (path, directory) ∧ Gives t path data ∧ s.directory = directory ∧
        s.NamedBy ((given e.database).map Value.text <|> field? data "storage" "database") := by
  constructor
  · intro s h
    have hs : s = prioritized {} data directory := overridden_of_ofDocument h {}
    rw [hs]
    exact ⟨rfl, namedBy_of_database rfl⟩
  · intro t' s h
    obtain ⟨path, directory, data, hfile, hgives, rfl⟩ := exists_of_load h
    exact ⟨path, directory, data, hfile, hgives, rfl, namedBy_of_database rfl⟩

/-- A document in which the database is named as nothing, loaded without a variable and with one. -/
theorem database_namedBy_of_null :
    let text := "\x7b\"storage\": \x7b\"backend\": \"memory\", \"database\": null\x7d\x7d"
    let t : Tree := ⟨["home"], .directory [("home", .directory [("c.json", .file (.text text))])]⟩
    let file : Path := ⟨.here, ["c.json"]⟩
    let s : Settings := { new ⟨.here, []⟩ with backend := .text "memory", database := .null }
    let s' : Settings := { s with database := .text "x.db" }
    load t {} (some file) = (t, .ok s) ∧ s.NamedBy (some .null) ∧ s.completed ≠ s ∧
      load t { database := some "x.db" } (some file) = (t, .ok s') ∧ s'.NamedBy (some (.text "x.db")) ∧
      s'.completed = s' := by
  intro text t file s s'
  let data : Value := .object [("storage", .object [("backend", .text "memory"), ("database", .null)])]
  have hgiven : ∀ data, Gives t file data → field? data "storage" "database" = some .null := by
    rintro data' (⟨text', htext, hread⟩ | ⟨habsent, -⟩)
    · obtain rfl : text = text' := Except.ok.inj htext
      have hdocument : Document.read text = .ok data := by decide +kernel
      obtain rfl := Except.ok.inj (hdocument.symm.trans hread)
      rfl
    · cases habsent
  have hload : load t {} (some file) = (t, .ok s) := Prod.ext rfl (by decide +kernel)
  have hload' : load t { database := some "x.db" } (some file) = (t, .ok s') := Prod.ext rfl (by decide +kernel)
  obtain ⟨-, hnamed⟩ := (database_namedBy data ⟨.here, []⟩ t {} (some file)).1 s rfl
  obtain ⟨_, _, _, hfile, hgives, -, hnamed'⟩ := (database_namedBy data ⟨.here, []⟩ t _ (some file)).2 _ _ hload'
  obtain ⟨rfl, -⟩ := Prod.mk.inj (Except.ok.inj hfile)
  rw [hgiven _ hgives] at hnamed'
  refine ⟨hload, hnamed, fun h => ?_, hload', hnamed', hnamed'.completed_iff.2 ?_⟩
  · exact absurd (hnamed.completed_iff.1 h .null rfl) (by decide)
  · rintro v ⟨⟩
    decide

/-- A document in which the database is named as nothing gives settings without one. -/
theorem exists_settings_without_database :
    let data : Value := .object [("storage", .object [("database", .text "")])]
    let directory : Path := ⟨.here, ["cfg"]⟩
    ∃ s, ofDocument data directory = .ok s ∧ s.database = .text "" ∧ s.completed.database = .text "cfg/profile.db" :=
  ⟨_, rfl, rfl, rfl⟩

end Settings

end LanguageUsage
