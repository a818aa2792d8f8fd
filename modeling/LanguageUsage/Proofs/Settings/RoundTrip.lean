import LanguageUsage.Proofs.Command.Settings
import LanguageUsage.Proofs.Document.RoundTrip

/-!
# Settings that are saved are loaded

Settings that were written to a file are read back from it, whatever their values, and are written again as the same
text. The directory is not written; it is the one that holds the file.

* `Settings.Storable`: settings whose values can be read back;
* `Settings.ofDocument_toDocument`: a document and its settings;
* `Settings.exists_of_save`: where settings are written;
* `Settings.load_save`: settings that are saved, loaded and saved again.
-/

namespace LanguageUsage

namespace Settings

variable {s : Settings} {t t' : Tree} {file : Path} {l : Location}

/-- The values of the settings can be read back from inside a document, where two objects are around them. -/
structure Storable (s : Settings) : Prop where
  backend : Document.Fits (Document.maxNesting - 2) s.backend
  database : Document.Fits (Document.maxNesting - 2) s.database
  defaultKey : Document.Fits (Document.maxNesting - 2) s.defaultKey
  suppressReplays : Document.Fits (Document.maxNesting - 2) s.suppressReplays
  capacity : Document.Fits (Document.maxNesting - 2) s.capacity
  minShare : Document.Fits (Document.maxNesting - 2) s.minShare

theorem Storable.fits_toDocument (h : s.Storable) : Document.Fits Document.maxNesting s.toDocument := by
  have hstorage : Document.Fits (Document.maxNesting - 2 + 1)
      (.object [("backend", s.backend), ("database", s.database)]) := by
    refine .object (by decide : ["backend", "database"].Nodup) ?_
    simp only [List.forall_mem_cons]
    exact ⟨h.backend, h.database, List.forall_mem_nil _⟩
  have hupdater : Document.Fits (Document.maxNesting - 2 + 1) (.object [("default_notification_key", s.defaultKey),
      ("suppress_replays", s.suppressReplays), ("replay_cache_size", s.capacity)]) := by
    refine .object (by decide : ["default_notification_key", "suppress_replays", "replay_cache_size"].Nodup) ?_
    simp only [List.forall_mem_cons]
    exact ⟨h.defaultKey, h.suppressReplays, h.capacity, List.forall_mem_nil _⟩
  have hprofile : Document.Fits (Document.maxNesting - 2 + 1) (.object [("frequent_min_share", s.minShare)]) :=
    .object (List.nodup_singleton _) (List.forall_mem_singleton.2 h.minShare)
  have hall : ∀ f ∈ [("storage", Value.object [("backend", s.backend), ("database", s.database)]),
      ("updater", .object [("default_notification_key", s.defaultKey), ("suppress_replays", s.suppressReplays),
        ("replay_cache_size", s.capacity)]),
      ("profile", .object [("frequent_min_share", s.minShare)])], Document.Fits (Document.maxNesting - 2 + 1) f.2 := by
    simp only [List.forall_mem_cons]
    exact ⟨hstorage, hupdater, hprofile, List.forall_mem_nil _⟩
  exact .object (by decide : ["storage", "updater", "profile"].Nodup) hall

/-- A document gives the settings from which it was made, for any directory. -/
theorem ofDocument_toDocument (s : Settings) (directory : Path) :
    ofDocument s.toDocument directory = .ok { s with directory := directory } := rfl

/-- The settings are in a file: the way there is open, and it holds their document. -/
structure Holds (t : Tree) (s : Settings) (file : Path) (l : Location) : Prop where
  directory : t.isDirectory file.parent = true
  reached : t.reach file = .ok l
  content : t.entry? l = some (.file (.text (Document.write s.toDocument)))

/-- Where settings are written. -/
theorem exists_of_save (hplace : t.HasPlace) (h : save t s file = (t', .ok ())) :
    ∃ l, Holds t' s file l := by
  rw [save] at h
  split at h
  · cases h
  · next t₁ hmake =>
    obtain ⟨hgrows, hdirectory⟩ := Tree.grows_of_makeDirectories hplace hmake
    split at h
    · next t₂ hwrite =>
      obtain rfl : t₂ = t' := congrArg Prod.fst h
      obtain ⟨parent, name, hreach, hparent, hne, rfl⟩ := Tree.exists_of_writeText (hgrows.hasPlace hplace) hwrite
      have hedits := Tree.edits_put hparent hne (.text (Document.write s.toDocument))
      refine ⟨parent ++ [name], hedits.isDirectory hdirectory, hedits.reach hreach, ?_⟩
      rw [Tree.entry?_put hparent hne, if_pos rfl]
    · cases h

theorem Holds.readFrom (h : Holds t s file l) (hs : s.Storable) (directory : Path) :
    readFrom t file directory = .ok { s with directory := directory } :=
  (Tree.readFrom_eq_ok_iff h.reached).2 ⟨_, _, h.content, Document.read_write hs.fits_toDocument,
    ofDocument_toDocument s directory⟩

/-- Settings that a file holds are loaded from it. -/
theorem Holds.load (h : Holds t s file l) (hs : s.Storable) (home : String) :
    load t { home := home } (some file) = (t, .ok { s with directory := file.parent }) :=
  Tree.load_of_readFrom rfl h.reached (h.readFrom hs file.parent)

theorem Holds.readText (h : Holds t s file l) : t.readText file = .ok (Document.write s.toDocument) :=
  Tree.readText_eq_ok_iff.2 ⟨_, h.reached, h.content⟩

/-- Settings that a file holds are written to it without a change, whichever directory they belong to. -/
theorem Holds.save (h : Holds t s file l) (directory : Path) :
    save t { s with directory := directory } file = (t, .ok ()) := by
  have hdocument : toDocument { s with directory := directory } = s.toDocument := rfl
  have hput : t.put l (.file (.text (Document.write s.toDocument))) = t :=
    congrArg (Tree.mk t.here) (Node.put_of_entryAt? h.content)
  rw [Settings.save, Tree.makeDirectories_of_isDirectory h.directory]
  simp only [hdocument, Tree.writeText_of_reach h.reached (Tree.ne_directory_of_eq_file h.content), hput]

/-- **Settings that are saved are loaded, and saved again as the same text.** The settings may hold any values, as long as
there is room for what is nested in them and for the digits of whole numbers. If they can be written to a file, then
loading them from this file, with no variables set, gives the same settings, for the directory that holds the file.
Neither loading them nor saving them again changes anything, so the text in the file stays as it was written. -/
theorem load_save (hplace : t.HasPlace) (hs : s.Storable) (hsave : save t s file = (t', .ok ())) (home : String) :
    load t' { home := home } (some file) = (t', .ok { s with directory := file.parent }) ∧
      save t' { s with directory := file.parent } file = (t', .ok ()) ∧
      t'.readText file = .ok (Document.write s.toDocument) := by
  obtain ⟨l, hholds⟩ := exists_of_save hplace hsave
  exact ⟨hholds.load hs home, hholds.save file.parent, hholds.readText⟩

/-- Settings with values that no one would choose, saved in a directory that is made for them. -/
theorem load_save_of_nested :
    let t : Tree := ⟨["home"], .directory [("home", .directory [])]⟩
    let file : Path := ⟨.here, ["made", "settings.json"]⟩
    let s : Settings := {
      directory := ⟨.here, []⟩
      backend := .list [.text "\x01é😀\"\\", .object [("", .list []), ("k", .object []), ("l", .list [.null, .bool false])]]
      database := .text ""
      defaultKey := .null
      suppressReplays := .real (.signed true .zero)
      capacity := .whole (-(2 ^ 70))
      minShare := .list [defaultMinShare, .real .nan, .real (.infinity true), .real (.signed false ⟨1, by decide⟩)] }
    let t' := (save t s file).1
    t.HasPlace ∧ s.Storable ∧ save t s file = (t', .ok ()) ∧
      load t' {} (some file) = (t', .ok { s with directory := ⟨.here, ["made"]⟩ }) ∧
      save t' { s with directory := ⟨.here, ["made"]⟩ } file = (t', .ok ()) ∧
      t'.readText file = .ok (Document.write s.toDocument) := by
  intro t file s t'
  have hplace : t.HasPlace := by
    unfold Tree.HasPlace
    decide +kernel
  have hempty : ∀ {room}, Document.Fits (room + 1) (.list []) := .list (List.forall_mem_nil _)
  have hlist : Document.Fits 986 (.list [.null, .bool false]) :=
    .list (List.forall_mem_cons.2 ⟨.null, List.forall_mem_singleton.2 (.bool false)⟩)
  have hobject : Document.Fits 987 (.object [("", .list []), ("k", .object []), ("l", .list [.null, .bool false])]) :=
    .object (by decide : ["", "k", "l"].Nodup) (List.forall_mem_cons.2 ⟨hempty, List.forall_mem_cons.2
      ⟨.object List.nodup_nil (List.forall_mem_nil _), List.forall_mem_singleton.2 hlist⟩⟩)
  have hreal : ∀ {room} x, Document.Fits room (.real x) := fun _ => .number trivial
  have hs : s.Storable := {
    backend := .list (List.forall_mem_cons.2 ⟨.text _, List.forall_mem_singleton.2 hobject⟩)
    database := .text ""
    defaultKey := .null
    suppressReplays := hreal _
    capacity := .number (x := .whole (-(2 ^ 70))) (by unfold Document.FitsDigits; decide +kernel)
    minShare := .list (List.forall_mem_cons.2 ⟨hreal _, List.forall_mem_cons.2 ⟨hreal _, List.forall_mem_cons.2
      ⟨hreal _, List.forall_mem_singleton.2 (hreal _)⟩⟩⟩) }
  have hsave : save t s file = (t', .ok ()) := Prod.ext rfl (by decide +kernel)
  exact ⟨hplace, hs, hsave, load_save hplace hs hsave "home"⟩

end Settings

end LanguageUsage
