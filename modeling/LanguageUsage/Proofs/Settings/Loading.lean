import LanguageUsage.Proofs.Settings.Given
import LanguageUsage.Proofs.Settings.RoundTrip

/-!
# Loading settings

Where there is no file of settings one is written. What is written are the default settings, whatever the variables say,
and when settings are loaded again nothing more is written.

* `Tree.OnlyWrites`: a tree after one text was written;
* `Settings.fileAndDirectory_congr`, `Settings.load_eq`: only the result depends on the variables;
* `Settings.readOrCreate_onlyWrites`: what is written;
* `Settings.readOrCreate_again`: what comes of the next time;
* `Settings.load_writes_defaults_once`: loading settings.

It is asked whether there is a file before the directories that lead to it are made. A path that leads into one of them
and up again may lead to a file only after that, and then the text is written over what is in it.
-/

namespace LanguageUsage

namespace Tree

variable {t t' t'' : Tree} {path : Path} {text : String} {f : Fault}

/-- Nothing is lost and no file is added, except that a text may be written where a path leads. It is written over a file
only if the path leads up somewhere. -/
structure OnlyWrites (t t' : Tree) (path : Path) (text : String) : Prop where
  kept : ∀ l e, t.entry? l = some e → t'.entry? l = some e ∨
    ".." ∈ path.names ∧ (∃ c, e = .file c) ∧ t'.reach path = .ok l ∧ t'.entry? l = some (.file (.text text))
  added : ∀ l c, t'.entry? l = some (.file c) → t.entry? l = some (.file c) ∨
    t'.reach path = .ok l ∧ c = .text text

theorem Deepens.onlyWrites (h : t.Deepens t') (path : Path) (text : String) : t.OnlyWrites t' path text :=
  ⟨fun l e he => .inl (h.entries l e he), fun l c hc => .inl (h.files l c hc)⟩

/-- A text is written where there was nothing, unless the path leads up somewhere. -/
theorem Deepens.onlyWrites_of_writeText (h : t.Deepens t') (hplace : t.HasPlace) (habsent : t.isThere path ≠ .ok true)
    (hwrite : t'.writeText path text = .ok t'') : t.OnlyWrites t'' path text := by
  obtain ⟨parent, name, hreach, hparent, hne, rfl⟩ := exists_of_writeText (h.hasPlace hplace) hwrite
  have hreach' := (edits_put hparent hne (.text text)).reach hreach
  have hput := entry?_put hparent hne (.file (.text text))
  constructor
  · intro l e he
    by_cases hl : l = parent ++ [name]
    · obtain rfl := hl
      have hup := up_mem_names h.here habsent hreach (by rw [he]; exact Option.some_ne_none e)
      refine .inr ⟨hup, ?_, hreach', by rw [hput, if_pos rfl]⟩
      cases e with
      | directory => exact absurd (h.entries _ _ he) hne
      | file c => exact ⟨c, rfl⟩
    · exact .inl (by rw [hput, if_neg hl]; exact h.entries l e he)
  · intro l c hc
    rw [hput] at hc
    split at hc
    · next hl =>
      obtain rfl := hl
      obtain rfl := Entry.file.inj (Option.some.inj hc)
      exact .inr ⟨hreach', rfl⟩
    · exact .inl (h.files l c hc)

/-- A text that cannot be written is not found either. -/
theorem of_writeText_error (h : t.writeText path text = .error f) :
    t.isThere path = .ok false ∨ t.isThere path = .error f ∨ t.isThere path = .ok true ∧ t.readText path = .error f := by
  cases htrail : t.trailOf path with
  | error o =>
    have hfind : t.find path = .error o := by rw [find, htrail]; rfl
    simp only [writeText, htrail, Except.error.injEq] at h
    obtain rfl := h
    cases o with
    | nameTooLong => exact .inr (.inl (by rw [isThere, hfind]; rfl))
    | _ => exact .inl (by rw [isThere, hfind])
  | ok trail =>
    simp only [writeText, htrail] at h
    split at h
    · next children hlast =>
      obtain rfl := Except.error.inj h
      have hfind : t.find path = .ok (some .directory) := by rw [find, htrail]; simp [Except.map, hlast, Node.entry]
      exact .inr (.inr ⟨by rw [isThere, hfind]; rfl, by rw [readText, hfind]⟩)
    · cases h

end Tree

namespace Settings

variable {t t' : Tree} {e e' : Environment} {file : Option Path} {path directory : Path} {r : Except Fault Settings}

/-! ### Files and directories -/

/-- The default settings can be read back. -/
theorem storable_new (directory : Path) : (new directory).Storable where
  backend := .text _
  database := .text _
  defaultKey := .text _
  suppressReplays := .bool _
  capacity := .number (x := .whole 256) (by unfold Document.FitsDigits; decide +kernel)
  minShare := .number (x := .real _) trivial

/-- The directory is the one that holds the file. -/
theorem eq_parent_of_fileAndDirectory (h : fileAndDirectory e file = .ok (path, directory)) :
    directory = path.parent := by
  cases file with
  | some p =>
    obtain ⟨rfl, rfl⟩ := Prod.mk.inj (Except.ok.inj h)
    rfl
  | none =>
    cases hhome : e.directory with
    | error f =>
      rw [fileAndDirectory, hhome] at h
      cases h
    | ok d =>
      rw [fileAndDirectory, hhome] at h
      obtain ⟨rfl, rfl⟩ := Prod.mk.inj (Except.ok.inj h)
      exact (Path.parent_child d _).symm

/-- Of the variables only the home directory matters for where the file is. -/
theorem fileAndDirectory_congr (h : e'.home = e.home) (file : Option Path) :
    fileAndDirectory e' file = fileAndDirectory e file := by
  cases file with
  | some p => rfl
  | none => simp only [fileAndDirectory, Environment.directory, h]

theorem load_eq (h : fileAndDirectory e file = .ok (path, directory)) (t : Tree) : load t e file =
    ((readOrCreate t path directory).1, (readOrCreate t path directory).2.map fun s => s.overridden e) := by
  rw [load, h]

/-! ### Creating a file -/

/-- The text of the default settings of the directory that holds a file. -/
def defaultText (path : Path) : String := Document.write (new path.parent).toDocument

/-- The default settings are written, or not all directories can be made, or the text cannot be written. -/
theorem create_cases (t : Tree) (path : Path) (hplace : t.HasPlace) :
    (∃ t₁ f, t.makeDirectories path.parent = (t₁, .error f) ∧ create t path path.parent = (t₁, .error f)) ∨
    ∃ t₁, t.makeDirectories path.parent = (t₁, .ok ()) ∧
      ((∃ f, t₁.writeText path (defaultText path) = .error f ∧ create t path path.parent = (t₁, .error f)) ∨
      ∃ t₂, t₁.writeText path (defaultText path) = .ok t₂ ∧ create t path path.parent = (t₂, .ok (new path.parent)) ∧
        save t₁ (new path.parent) path = (t₂, .ok ())) := by
  cases hmade : t.makeDirectories path.parent with
  | mk t₁ made =>
    cases made with
    | error f => exact .inl ⟨t₁, f, rfl, by rw [create, hmade]⟩
    | ok u =>
      obtain ⟨-, hdirectory⟩ := Tree.grows_of_makeDirectories hplace hmade
      have hthere := Tree.makeDirectories_of_isDirectory hdirectory
      refine .inr ⟨t₁, rfl, ?_⟩
      cases hwrite : t₁.writeText path (defaultText path) with
      | error f =>
        have hsave : save t₁ (new path.parent) path = (t₁, .error f) := by
          rw [defaultText] at hwrite
          rw [save, hthere]
          simp only [hwrite]
        refine .inl ⟨f, rfl, ?_⟩
        rw [create, hmade]
        simp only [hsave]
        rfl
      | ok t₂ =>
        have hsave : save t₁ (new path.parent) path = (t₂, .ok ()) := by
          rw [defaultText] at hwrite
          rw [save, hthere]
          simp only [hwrite]
        refine .inr ⟨t₂, rfl, ?_, hsave⟩
        rw [create, hmade]
        simp only [hsave]
        rfl

theorem create_onlyWrites (hplace : t.HasPlace) (habsent : t.isThere path = .ok false) :
    t.OnlyWrites (create t path path.parent).1 path (defaultText path) := by
  have habsent' : t.isThere path ≠ .ok true := by simp [habsent]
  have hdeepens := (Tree.makeDirectories_spec hplace path.parent).1
  rcases create_cases t path hplace with ⟨t₁, f, hmade, h⟩ | ⟨t₁, hmade, ⟨f, -, h⟩ | ⟨t₂, hwrite, h, -⟩⟩
  · rw [hmade] at hdeepens
    rw [h]
    exact hdeepens.onlyWrites path _
  · rw [hmade] at hdeepens
    rw [h]
    exact hdeepens.onlyWrites path _
  · rw [hmade] at hdeepens
    rw [h]
    exact hdeepens.onlyWrites_of_writeText hplace habsent' hwrite

/-- **What comes of the next time.** Settings that were written are found; and where they could not be written nothing
is written the next time. -/
theorem readOrCreate_create (hplace : t.HasPlace) (path : Path) :
    readOrCreate (create t path path.parent).1 path path.parent = create t path path.parent ∨
      (create t path path.parent).1.isDirectory path.parent = false ∧
        ∃ f f', (create t path path.parent).2 = .error f ∧
          readOrCreate (create t path path.parent).1 path path.parent = ((create t path path.parent).1, .error f') := by
  have hdeepens := (Tree.makeDirectories_spec hplace path.parent).1
  rcases create_cases t path hplace with ⟨t₁, f, hmade, h⟩ | ⟨t₁, hmade, ⟨f, hwrite, h⟩ | ⟨t₂, hwrite, h, hsave⟩⟩
  · -- the file cannot be there, and the directories cannot be made
    rw [hmade] at hdeepens
    rw [h]
    obtain ⟨hdirectory, f', hagain⟩ := Tree.makeDirectories_again hplace hmade
    refine .inr ⟨hdirectory, f, ?_⟩
    cases hthere : t₁.isThere path with
    | error g => exact ⟨g, rfl, by rw [readOrCreate, hthere]⟩
    | ok there =>
      cases there with
      | false => exact ⟨f', rfl, by rw [readOrCreate, hthere]; simp only [create, hagain]⟩
      | true =>
        obtain ⟨l, -, hl, -⟩ := Tree.isThere_eq_true_iff.1 hthere
        rw [Tree.isDirectory_parent (hdeepens.hasPlace hplace) hl] at hdirectory
        cases hdirectory
  · -- what was in the way of the text still is
    refine .inl ?_
    obtain ⟨-, hdirectory⟩ := Tree.grows_of_makeDirectories hplace hmade
    have hagain : create t₁ path path.parent = create t path path.parent := by
      rw [create, create, Tree.makeDirectories_of_isDirectory hdirectory, hmade]
    rw [h] at hagain ⊢
    rcases Tree.of_writeText_error hwrite with habsent | hlong | ⟨hthere, hread⟩
    · simp only [readOrCreate, habsent, hagain]
    · rw [readOrCreate, hlong]
    · rw [readOrCreate, hthere]
      simp only [readFrom, hread]
      rfl
  · -- the text is read back
    rw [hmade] at hdeepens
    obtain ⟨l, hholds⟩ := exists_of_save (hdeepens.hasPlace hplace) hsave
    have hthere : t₂.isThere path = .ok true := Tree.isThere_eq_true_iff.2 ⟨l, _, hholds.reached, hholds.content⟩
    refine .inl ?_
    rw [h, readOrCreate, hthere]
    simp only [hholds.readFrom (storable_new _)]
    rfl

/-! ### Loading -/

theorem readOrCreate_onlyWrites (hplace : t.HasPlace) (path : Path) : (readOrCreate t path path.parent).1 = t ∨
    t.isThere path = .ok false ∧ t.OnlyWrites (readOrCreate t path path.parent).1 path (defaultText path) := by
  rw [readOrCreate]
  split
  · exact .inl rfl
  · exact .inl rfl
  · next habsent => exact .inr ⟨habsent, create_onlyWrites hplace habsent⟩

/-- Settings that come of a file that was not found were written to it. -/
theorem readText_of_readOrCreate {s : Settings} (hplace : t.HasPlace) (habsent : t.isThere path = .ok false)
    (h : (readOrCreate t path path.parent).2 = .ok s) :
    (readOrCreate t path path.parent).1.readText path = .ok (defaultText path) := by
  have hcreate : readOrCreate t path path.parent = create t path path.parent := by rw [readOrCreate, habsent]
  have hdeepens := (Tree.makeDirectories_spec hplace path.parent).1
  rw [hcreate] at h ⊢
  rcases create_cases t path hplace with ⟨t₁, f, -, h'⟩ | ⟨t₁, hmade, ⟨f, -, h'⟩ | ⟨t₂, -, h', hsave⟩⟩
  · rw [h'] at h
    cases h
  · rw [h'] at h
    cases h
  · rw [hmade] at hdeepens
    obtain ⟨l, hholds⟩ := exists_of_save (hdeepens.hasPlace hplace) hsave
    rw [h']
    exact hholds.readText

theorem readOrCreate_again (hplace : t.HasPlace) (path : Path) :
    readOrCreate (readOrCreate t path path.parent).1 path path.parent = readOrCreate t path path.parent ∨
      (readOrCreate t path path.parent).1 ≠ t ∧ (readOrCreate t path path.parent).1.isDirectory path.parent = false ∧
        ∃ f f', (readOrCreate t path path.parent).2 = .error f ∧ readOrCreate (readOrCreate t path path.parent).1 path
          path.parent = ((readOrCreate t path path.parent).1, .error f') := by
  by_cases hsame : (readOrCreate t path path.parent).1 = t
  · exact .inl (congrArg (readOrCreate · path path.parent) hsame)
  · have hcreate : readOrCreate t path path.parent = create t path path.parent := by
      rw [readOrCreate] at hsame ⊢
      split at hsame
      · exact absurd rfl hsame
      · exact absurd rfl hsame
      · rfl
    rw [hcreate] at hsame ⊢
    rcases readOrCreate_create hplace path with h | ⟨hdirectory, f, f', hfirst, h⟩
    · exact .inl h
    · exact .inr ⟨hsame, hdirectory, f, f', hfirst, h⟩

/-- **Settings are loaded by priority, and defaults are written once.** Relative paths start at a directory.

* Whatever the variables are, the same is done to the files, and the same settings are found before the variables are
  looked at. The result has what a variable says, or else what the file gives, or else the default. If the file was not
  found, the default settings of the directory are in it then.
* If anything is written at all, the file was not found, and what is written are directories and the default settings of
  the directory, at the end of the path. Nothing is lost, except that they are written over a file if the path leads up
  somewhere and leads to this file only when the directories are made.
* The next time nothing is written, and the result is the same. Only where directories were made, but not all that lead
  to the file, something else may be in the way the next time.
-/
theorem load_writes_defaults_once (hplace : t.HasPlace) (h : load t e file = (t', r)) :
    (∃ r₀ : Except Fault Settings, ∀ e' : Environment, e'.home = e.home →
      load t e' file = (t', r₀.map fun s => s.overridden e')) ∧
    (∀ s, r = .ok s → ∃ path data, fileAndDirectory e file = .ok (path, path.parent) ∧ Gives t path data ∧
      s = prioritized e data path.parent ∧ (t.isThere path = .ok false → t'.readText path = .ok (defaultText path))) ∧
    (t' = t ∨ ∃ path, fileAndDirectory e file = .ok (path, path.parent) ∧ t.isThere path = .ok false ∧
      t.OnlyWrites t' path (defaultText path)) ∧
    (load t' e file = (t', r) ∨ ∃ path f f', fileAndDirectory e file = .ok (path, path.parent) ∧ t' ≠ t ∧
      t'.isDirectory path.parent = false ∧ r = .error f ∧ load t' e file = (t', .error f')) := by
  cases hfile : fileAndDirectory e file with
  | error f =>
    have hload : ∀ t e', e'.home = e.home → load t e' file = (t, .error f) := by
      intro t e' he
      rw [load, fileAndDirectory_congr he, hfile]
    obtain ⟨rfl, rfl⟩ := Prod.mk.inj ((hload t e rfl).symm.trans h)
    exact ⟨⟨.error f, hload t⟩, fun s hs => (by cases hs), .inl rfl, .inl h⟩
  | ok place =>
    obtain ⟨path, directory⟩ := place
    obtain rfl := eq_parent_of_fileAndDirectory hfile
    have hload : ∀ t e', e'.home = e.home → load t e' file =
        ((readOrCreate t path path.parent).1, (readOrCreate t path path.parent).2.map fun s => s.overridden e') :=
      fun t e' he => load_eq ((fileAndDirectory_congr he file).trans hfile) t
    obtain ⟨rfl, rfl⟩ := Prod.mk.inj ((hload t e rfl).symm.trans h)
    refine ⟨⟨_, hload t⟩, fun s hs => ?_, ?_, ?_⟩
    · obtain ⟨s₀, hs₀⟩ : ∃ s₀, (readOrCreate t path path.parent).2 = .ok s₀ := by
        cases hread : (readOrCreate t path path.parent).2 with
        | ok s₀ => exact ⟨s₀, rfl⟩
        | error f =>
          rw [hread] at hs
          cases hs
      rw [hs] at h
      obtain ⟨_, _, data, hfile', hgives, rfl⟩ := exists_of_load h
      obtain ⟨rfl, rfl⟩ := Prod.mk.inj (Except.ok.inj (hfile.symm.trans hfile'))
      exact ⟨path, data, rfl, hgives, rfl, fun habsent => readText_of_readOrCreate hplace habsent hs₀⟩
    · exact (readOrCreate_onlyWrites hplace path).imp_right fun hwrites => ⟨path, rfl, hwrites⟩
    · rcases readOrCreate_again hplace path with hagain | ⟨hne, hdirectory, f, f', hfirst, hagain⟩
      · exact .inl (by rw [hload _ e rfl, hagain])
      · refine .inr ⟨path, f, f', rfl, hne, hdirectory, by rw [hfirst]; rfl, ?_⟩
        rw [hload _ e rfl, hagain]
        rfl

/-- Settings in a new directory, beside another file, with variables of which one counts as not set. -/
theorem load_writes_defaults_once_of_new_directory :
    let t : Tree := ⟨["home"], .directory [("home", .directory [("notes", .file (.text "7"))])]⟩
    let e : Environment := { database := some "x.db", backend := some "", suppressReplays := some " YES\n" }
    let path : Path := ⟨.here, ["made", "c.json"]⟩
    let s : Settings := { new ⟨.here, ["made"]⟩ with database := .text "x.db", suppressReplays := .bool true }
    let t' := (load t e (some path)).1
    t.HasPlace ∧ load t e (some path) = (t', .ok s) ∧ t.OnlyWrites t' path (defaultText path) ∧
      t'.readText ⟨.here, ["notes"]⟩ = .ok "7" ∧ t'.readText path = .ok (defaultText path) ∧
      load t {} (some path) = (t', .ok (new ⟨.here, ["made"]⟩)) ∧ load t' e (some path) = (t', .ok s) := by
  intro t e path s t'
  have hplace : t.HasPlace := by
    unfold Tree.HasPlace
    decide +kernel
  have hload : load t e (some path) = (t', .ok s) := Prod.ext rfl (by decide +kernel)
  obtain ⟨⟨r₀, hall⟩, -, hwrites, hagain⟩ := load_writes_defaults_once hplace hload
  have hplain : (load t {} (some path)).2 = .ok (new ⟨.here, ["made"]⟩) := by decide +kernel
  refine ⟨hplace, hload, ?_, by decide +kernel, by decide +kernel, Prod.ext ?_ hplain, ?_⟩
  · rcases hwrites with hsame | ⟨path', hpath, -, hwrites⟩
    · have hdirectory : t'.isDirectory ⟨.here, ["made"]⟩ = true := by decide +kernel
      rw [hsame] at hdirectory
      exact absurd hdirectory (by decide +kernel)
    · obtain ⟨rfl, -⟩ := Prod.mk.inj (Except.ok.inj hpath)
      exact hwrites
  · rw [hall {} rfl]
  · rcases hagain with hagain | ⟨_, f, _, -, -, -, hf, -⟩
    · exact hagain
    · cases hf

/-- A path that leads into a directory that is not there, and up again, to a file. -/
theorem defaults_written_over_file :
    let t : Tree := ⟨["home"], .directory [("home", .directory [("c.json", .file (.text "\x7b\x7d"))])]⟩
    let path : Path := ⟨.here, ["sub", "..", "c.json"]⟩
    t.readText ⟨.here, ["c.json"]⟩ = .ok "\x7b\x7d" ∧ (load t {} (some path)).2 = .ok (new path.parent) ∧
      (load t {} (some path)).1.readText ⟨.here, ["c.json"]⟩ = .ok (defaultText path) ∧
      defaultText path ≠ "\x7b\x7d" := by
  decide +kernel

/-- Something else is in the way the next time. -/
example :
    let t : Tree := ⟨["home"], .directory [("home", .directory [("notes", .file (.text "7"))])]⟩
    let path : Path := ⟨.here, ["new", "..", "notes", "sub", "c.json"]⟩
    (load t {} (some path)).2 = .error (.fileExists "new/../notes") ∧
      (load (load t {} (some path)).1 {} (some path)).2 = .error (.notADirectory "new/../notes/sub") := by
  decide +kernel

end Settings

end LanguageUsage
