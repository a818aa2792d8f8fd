import LanguageUsage.Proofs.Files.Locate

/-!
# Files of databases and their journals

Once the file of a database has been opened, there are no journals left to remove. So it is found as it was when it is
opened again, and after its table was written it is found with the new table.

* `Tree.Touches`: a tree in which nothing was done but to a database and its journals;
* `Tree.Quiet`: a table with no journal beside it that would be removed;
* `Tree.Rests`: a file that is opened without a change, and what it is then;
* `Tree.Rests.openTrail`: this is how it is opened;
* `Tree.rests_of_openTrail`, `Tree.Rests.putTable`: it is left by opening, and by writing.
-/

namespace LanguageUsage

namespace Tree

variable {t t' : Tree} {l parent : Location} {name : String} {a : Address} {c : Content} {m : Medium}
  {rows rows' : Table}

/-! ### Journals -/

theorem beside_concat (parent : Location) (name ending : String) :
    beside (parent ++ [name]) ending = parent ++ [name ++ ending] := by
  simp [beside]

/-- Files whose names go on in ways of different length are different. -/
theorem concat_append_ne {ending ending' : String} (h : ending.length ≠ ending'.length) (parent : Location)
    (name : String) : parent ++ [name ++ ending] ≠ parent ++ [name ++ ending'] := by
  intro heq
  have hlength := congrArg String.length (List.singleton_inj.1 (List.append_cancel_left heq))
  rw [String.length_append, String.length_append] at hlength
  omega

theorem concat_append_ne_self {ending : String} (h : ending.length ≠ 0) (parent : Location) (name : String) :
    parent ++ [name ++ ending] ≠ parent ++ [name] := by
  have hne : parent ++ [name ++ ending] ≠ parent ++ [name ++ ""] := concat_append_ne h parent name
  rwa [String.append_empty] at hne

/-- The names of a database and of its journals. -/
def ownNames (name : String) : List String := [name, name ++ journalEnding, name ++ logEnding]

/-- Nothing was done but to a database and its journals, and the same directories are there. -/
structure Touches (t t' : Tree) (parent : Location) (name : String) : Prop extends t.Edits t' where
  elsewhere : ∀ l, (∀ own ∈ ownNames name, l ≠ parent ++ [own]) → t'.entry? l = t.entry? l

theorem Touches.refl (t : Tree) (parent : Location) (name : String) : t.Touches t parent name :=
  ⟨.refl t, fun _ _ => rfl⟩

theorem Touches.trans {t'' : Tree} (h : t.Touches t' parent name) (h' : t'.Touches t'' parent name) :
    t.Touches t'' parent name :=
  ⟨h.toEdits.trans h'.toEdits, fun l hl => (h'.elsewhere l hl).trans (h.elsewhere l hl)⟩

theorem touches_put {own : String} (hown : own ∈ ownNames name) (hparent : t.entry? parent = some .directory)
    (hfile : t.entry? (parent ++ [own]) ≠ some .directory) (c : Content) :
    t.Touches (t.put (parent ++ [own]) (.file c)) parent name := by
  refine ⟨edits_put hparent hfile c, fun l hl => ?_⟩
  rw [entry?_put hparent hfile, if_neg (hl own hown)]

theorem touches_remove {own : String} (hown : own ∈ ownNames name)
    (hfile : t.entry? (parent ++ [own]) ≠ some .directory) :
    t.Touches (t.remove (parent ++ [own])) parent name := by
  refine ⟨edits_remove hfile, fun l hl => ?_⟩
  rw [entry?_remove hfile, if_neg (hl own hown)]

theorem journal_mem_ownNames (name : String) : name ++ journalEnding ∈ ownNames name := by simp [ownNames]

theorem log_mem_ownNames (name : String) : name ++ logEnding ∈ ownNames name := by simp [ownNames]

theorem mem_ownNames (name : String) : name ∈ ownNames name := by simp [ownNames]

/-- There is a file with something in it. -/
def IsFilled (t : Tree) (l : Location) : Prop := ∃ c, t.entry? l = some (.file c) ∧ c ≠ .text ""

theorem isFilled_congr (h : t'.entry? l = t.entry? l) : t'.IsFilled l ↔ t.IsFilled l := by
  rw [IsFilled, IsFilled, h]

theorem removeFilled_of_not (h : ¬ t.IsFilled l) : t.removeFilled l = t := by
  rw [removeFilled]
  split
  · next c hc =>
    by_cases hempty : c = .text ""
    · exact if_pos hempty
    · exact absurd ⟨c, hc, hempty⟩ h
  · rfl

/-- Either there is nothing to remove, or a file is removed. -/
theorem removeFilled_cases (t : Tree) (l : Location) : (¬ t.IsFilled l ∧ t.removeFilled l = t) ∨
    (t.entry? l ≠ some .directory ∧ t.removeFilled l = t.remove l) := by
  by_cases h : t.IsFilled l
  · obtain ⟨c, hc, hempty⟩ := h
    refine .inr ⟨ne_directory_of_eq_file hc, ?_⟩
    rw [removeFilled, hc]
    exact if_neg hempty
  · exact .inl ⟨h, removeFilled_of_not h⟩

theorem touches_removeFilled (t : Tree) (parent : Location) {own : String} (hown : own ∈ ownNames name) :
    t.Touches (t.removeFilled (parent ++ [own])) parent name := by
  rcases t.removeFilled_cases (parent ++ [own]) with ⟨-, heq⟩ | ⟨hfile, heq⟩ <;> rw [heq]
  · exact .refl t parent name
  · exact touches_remove hown hfile

theorem entry?_removeFilled_of_ne (h : l ≠ parent ++ [name]) :
    Tree.entry? (t.removeFilled (parent ++ [name])) l = t.entry? l := by
  rcases t.removeFilled_cases (parent ++ [name]) with ⟨-, heq⟩ | ⟨hfile, heq⟩ <;> rw [heq]
  rw [entry?_remove hfile, if_neg h]

theorem not_isFilled_removeFilled (t : Tree) (parent : Location) (name : String) :
    ¬ (t.removeFilled (parent ++ [name])).IsFilled (parent ++ [name]) := by
  rcases t.removeFilled_cases (parent ++ [name]) with ⟨hempty, heq⟩ | ⟨hfile, heq⟩ <;> rw [heq]
  · exact hempty
  · rintro ⟨c, hc, -⟩
    rw [entry?_remove hfile, if_pos rfl] at hc
    cases hc

theorem Edits.journalIsDirectory (h : t.Edits t') (l : Location) :
    t'.journalIsDirectory l = t.journalIsDirectory l := by
  have hsame : ∀ l, (t'.entry? l == some .directory) = (t.entry? l == some .directory) := fun l => by
    rw [Bool.eq_iff_iff, beq_iff_eq, beq_iff_eq, h.directories]
  rw [Tree.journalIsDirectory, Tree.journalIsDirectory, hsame, hsame]

theorem entry?_of_journalIsDirectory (h : t.journalIsDirectory (parent ++ [name]) = false) :
    t.entry? (parent ++ [name ++ journalEnding]) ≠ some .directory ∧
      t.entry? (parent ++ [name ++ logEnding]) ≠ some .directory := by
  rw [Tree.journalIsDirectory, beside_concat, beside_concat, Bool.or_eq_false_iff] at h
  exact ⟨by simpa using h.1, by simpa using h.2⟩

theorem hasHotJournal_of_none (h : t.entry? (parent ++ [name ++ journalEnding]) = none) :
    t.hasHotJournal (parent ++ [name]) = false := by
  rw [hasHotJournal, beside_concat, h]

theorem hasHotJournal_congr
    (h : t'.entry? (parent ++ [name ++ journalEnding]) = t.entry? (parent ++ [name ++ journalEnding])) :
    t'.hasHotJournal (parent ++ [name]) = t.hasHotJournal (parent ++ [name]) := by
  rw [hasHotJournal, hasHotJournal, beside_concat, h]

/-! ### Files that are opened without a change -/

/-- A table with no journal beside it that would be removed. -/
structure Quiet (t : Tree) (parent : Location) (name : String) (rows : Table) : Prop where
  entry : t.entry? (parent ++ [name]) = some (.file (.table rows))
  noDirectory : t.journalIsDirectory (parent ++ [name]) = false
  noJournal : t.hasHotJournal (parent ++ [name]) = false
  noLog : ¬ t.IsFilled (parent ++ [name ++ logEnding])

theorem Quiet.withoutHotJournals (h : t.Quiet parent name rows) : t.withoutHotJournals (parent ++ [name]) = t := by
  rw [Tree.withoutHotJournals, h.noJournal, beside_concat, beside_concat, if_neg Bool.false_ne_true]
  exact removeFilled_of_not h.noLog

/-- The journals are gone once they are removed. -/
theorem quiet_withoutHotJournals (hentry : t.entry? (parent ++ [name]) = some (.file (.table rows)))
    (hdirectory : t.journalIsDirectory (parent ++ [name]) = false) :
    t.Touches (t.withoutHotJournals (parent ++ [name])) parent name ∧
      (t.withoutHotJournals (parent ++ [name])).Quiet parent name rows := by
  obtain ⟨hjournal, hlog⟩ := entry?_of_journalIsDirectory hdirectory
  rw [Tree.withoutHotJournals, beside_concat, beside_concat]
  -- the tree without the first journal
  generalize ht₁ : (if t.hasHotJournal (parent ++ [name]) then t.remove (parent ++ [name ++ journalEnding]) else t) = t₁
  have hfirst : t.Touches t₁ parent name ∧ t₁.entry? (parent ++ [name]) = some (.file (.table rows)) ∧
      t₁.hasHotJournal (parent ++ [name]) = false := by
    cases hhot : t.hasHotJournal (parent ++ [name]) with
    | true =>
      rw [hhot, if_pos rfl] at ht₁
      subst ht₁
      have hremove := entry?_remove hjournal
      refine ⟨touches_remove (journal_mem_ownNames name) hjournal, ?_, hasHotJournal_of_none ?_⟩
      · rw [hremove, if_neg (concat_append_ne_self (by decide) parent name).symm, hentry]
      · rw [hremove, if_pos rfl]
    | false =>
      rw [hhot, if_neg Bool.false_ne_true] at ht₁
      exact ht₁ ▸ ⟨.refl t parent name, hentry, hhot⟩
  obtain ⟨htouches, hentry₁, hcold⟩ := hfirst
  have htouches' := htouches.trans (touches_removeFilled t₁ parent (log_mem_ownNames name))
  refine ⟨htouches', ?_, (htouches'.journalIsDirectory _).trans hdirectory, ?_, not_isFilled_removeFilled t₁ parent _⟩
  · rw [entry?_removeFilled_of_ne (concat_append_ne_self (by decide) parent name).symm, hentry₁]
  · rw [hasHotJournal_congr (entry?_removeFilled_of_ne (concat_append_ne (by decide) parent name)), hcold]

section putTable

variable (hparent : t.entry? parent = some .directory) (hfile : t.entry? (parent ++ [name]) ≠ some .directory)
  (hdirectory : t.journalIsDirectory (parent ++ [name]) = false)

include hparent hfile hdirectory

/-- What there is after a table was written. -/
theorem entry?_putTable (rows : Table) (l : Location) : Tree.entry? (t.putTable (parent ++ [name]) rows) l =
    if l = parent ++ [name] then some (.file (.table rows))
    else if l = parent ++ [name ++ journalEnding] then none else t.entry? l := by
  have hjournal := (entry?_of_journalIsDirectory hdirectory).1
  have hedits := edits_remove hjournal
  rw [putTable, beside_concat, entry?_put ((hedits.directories _).2 hparent) (mt (hedits.directories _).1 hfile),
    entry?_remove hjournal]

theorem touches_putTable (rows : Table) : t.Touches (t.putTable (parent ++ [name]) rows) parent name := by
  have htouches := touches_remove (journal_mem_ownNames name) (entry?_of_journalIsDirectory hdirectory).1
  rw [putTable, beside_concat]
  exact htouches.trans (touches_put (mem_ownNames name) ((htouches.directories _).2 hparent)
    (mt (htouches.directories _).1 hfile) _)

theorem quiet_putTable (hlog : ¬ t.IsFilled (parent ++ [name ++ logEnding])) :
    (t.putTable (parent ++ [name]) rows).Quiet parent name rows := by
  have hentry := entry?_putTable hparent hfile hdirectory rows
  refine ⟨by rw [hentry, if_pos rfl], ?_, hasHotJournal_of_none ?_, ?_⟩
  · rw [(touches_putTable hparent hfile hdirectory rows).journalIsDirectory, hdirectory]
  · rw [hentry, if_neg (concat_append_ne_self (by decide) parent name), if_pos rfl]
  · rw [isFilled_congr (t := t)]
    · exact hlog
    · rw [hentry, if_neg (concat_append_ne_self (by decide) parent name),
        if_neg (concat_append_ne (by decide) parent name)]

end putTable

/-- The file is a table that is opened for an address without a change, and this is what it is then. -/
inductive Rests (t : Tree) (a : Address) (parent : Location) (name : String) : Medium → Prop
  | unchanging {rows : Table} (h : a.unchanging = true)
      (hentry : t.entry? (parent ++ [name]) = some (.file (.table rows))) : Rests t a parent name (.sealed rows)
  | read {rows : Table} (h : a.unchanging = false) (hread : a.access = .read)
      (hentry : t.entry? (parent ++ [name]) = some (.file (.table rows)))
      (hjournals : (t.journalIsDirectory (parent ++ [name]) || t.hasHotJournal (parent ++ [name])) = false) :
      Rests t a parent name (.sealed rows)
  | sealed {rows : Table} (h : a.unchanging = false) (hwrite : a.access ≠ .read) (hquiet : t.Quiet parent name rows)
      (hlong : isTooLongForJournal (parent ++ [name]) = true) : Rests t a parent name (.sealed rows)
  | table {rows : Table} (h : a.unchanging = false) (hwrite : a.access ≠ .read) (hquiet : t.Quiet parent name rows)
      (hlong : isTooLongForJournal (parent ++ [name]) = false) : Rests t a parent name (.table rows)

theorem Rests.entry (h : t.Rests a parent name m) :
    ∃ rows, t.entry? (parent ++ [name]) = some (.file (.table rows)) := by
  cases h with
  | unchanging _ hentry => exact ⟨_, hentry⟩
  | read _ _ hentry _ => exact ⟨_, hentry⟩
  | sealed _ _ hquiet _ => exact ⟨_, hquiet.entry⟩
  | table _ _ hquiet _ => exact ⟨_, hquiet.entry⟩

theorem Rests.table? (h : t.Rests a parent name m) : m.table?.isSome = true := by
  cases h <;> rfl

theorem openTrail_of_file (h : t.entry? l = some (.file c)) : t.openTrail a (t.trailAt l) =
    if a.unchanging then (t, readMedium c) else t.openFile l c a.access := by
  have hfile : t.root.at? l = some (.file c) := by
    obtain ⟨n, hn, hentry⟩ := Option.map_eq_some_iff.1 h
    cases n with
    | file c' => rw [hn, Entry.file.inj hentry]
    | directory children => cases hentry
  rw [openTrail, location_trailAt, last?_trailAt, hfile]

/-- A file that is at rest is opened without a change. -/
theorem Rests.openTrail (h : t.Rests a parent name m) : t.openTrail a (t.trailAt (parent ++ [name])) = (t, m) := by
  have hquiet : ∀ {rows : Table}, a.access ≠ .read → t.Quiet parent name rows → a.unchanging = false →
      t.openTrail a (t.trailAt (parent ++ [name])) =
        (t, if isTooLongForJournal (parent ++ [name]) then .sealed rows else .table rows) := by
    intro rows hwrite hquiet hchanging
    rw [openTrail_of_file hquiet.entry, hchanging, if_neg Bool.false_ne_true, openFile, if_neg hwrite,
      if_neg (by exact nofun), hquiet.noDirectory, if_neg Bool.false_ne_true]
    simp only [hquiet.withoutHotJournals]
  cases h with
  | unchanging hchanging hentry =>
    rw [openTrail_of_file hentry, hchanging, if_pos rfl]
    rfl
  | read hchanging hread hentry hjournals =>
    rw [openTrail_of_file hentry, hchanging, if_neg Bool.false_ne_true, openFile, if_pos hread, hjournals,
      if_neg Bool.false_ne_true]
    rfl
  | sealed hchanging hwrite hrows hlong => rw [hquiet hwrite hrows hchanging, if_pos hlong]
  | table hchanging hwrite hrows hlong => rw [hquiet hwrite hrows hchanging, hlong, if_neg Bool.false_ne_true]

theorem readMedium_of_table (h : (readMedium c).table?.isSome = true) : ∃ rows, c = .table rows := by
  cases c with
  | text s => cases h
  | table rows => exact ⟨rows, rfl⟩

/-- An empty file is made a table, after the journals beside it were removed. -/
theorem rests_of_openFile_empty (hparent : t.entry? parent = some .directory)
    (hentry : t.entry? (parent ++ [name]) = some (.file (.text ""))) (hchanging : a.unchanging = false)
    (hwrite : a.access ≠ .read) (h : t.openFile (parent ++ [name]) (.text "") a.access = (t', m))
    (hm : m.table?.isSome = true) : t.Touches t' parent name ∧ t'.Rests a parent name m := by
  have htouches := (touches_removeFilled t parent (journal_mem_ownNames name)).trans
    (touches_removeFilled _ parent (log_mem_ownNames name))
  have hlog :=
    not_isFilled_removeFilled (t.removeFilled (parent ++ [name ++ journalEnding])) parent (name ++ logEnding)
  rw [openFile, if_neg hwrite, if_pos rfl, beside_concat, beside_concat] at h
  simp only at h
  generalize (t.removeFilled (parent ++ [name ++ journalEnding])).removeFilled (parent ++ [name ++ logEnding]) = t₁
    at h htouches hlog
  split at h
  · obtain ⟨-, rfl⟩ := Prod.mk.inj h
    cases hm
  · next hbad =>
    obtain ⟨rfl, rfl⟩ := Prod.mk.inj h
    rw [Bool.or_eq_true, not_or, Bool.not_eq_true, Bool.not_eq_true] at hbad
    have hparent₁ := (htouches.directories parent).2 hparent
    have hfile₁ : t₁.entry? (parent ++ [name]) ≠ some .directory :=
      mt (htouches.directories _).1 (ne_directory_of_eq_file hentry)
    exact ⟨htouches.trans (touches_putTable hparent₁ hfile₁ hbad.1 []),
      .table hchanging hwrite (quiet_putTable hparent₁ hfile₁ hbad.1 hlog) hbad.2⟩

/-- **Opening a file leaves it at rest**, if its table can be read. -/
theorem rests_of_openFile (hparent : t.entry? parent = some .directory)
    (hentry : t.entry? (parent ++ [name]) = some (.file c)) (hchanging : a.unchanging = false)
    (h : t.openFile (parent ++ [name]) c a.access = (t', m)) (hm : m.table?.isSome = true) :
    t.Touches t' parent name ∧ t'.Rests a parent name m := by
  by_cases hread : a.access = .read
  · unfold openFile at h
    rw [if_pos hread] at h
    obtain ⟨rfl, rfl⟩ := Prod.mk.inj h
    cases hjournals : t.journalIsDirectory (parent ++ [name]) || t.hasHotJournal (parent ++ [name]) with
    | true =>
      rw [hjournals] at hm
      cases hm
    | false =>
      rw [hjournals] at hm
      rw [if_neg Bool.false_ne_true] at hm ⊢
      obtain ⟨rows, rfl⟩ := readMedium_of_table hm
      exact ⟨.refl t parent name, .read hchanging hread hentry hjournals⟩
  · by_cases hempty : c = .text ""
    · subst hempty
      exact rests_of_openFile_empty hparent hentry hchanging hread h hm
    · unfold openFile at h
      rw [if_neg hread, if_neg hempty] at h
      cases hdirectory : t.journalIsDirectory (parent ++ [name]) with
      | true =>
        rw [hdirectory, if_pos rfl] at h
        obtain ⟨-, rfl⟩ := Prod.mk.inj h
        cases hm
      | false =>
        rw [hdirectory, if_neg Bool.false_ne_true] at h
        cases c with
        | text s =>
          obtain ⟨-, rfl⟩ := Prod.mk.inj h
          cases hm
        | table rows =>
          obtain ⟨rfl, rfl⟩ := Prod.mk.inj h
          obtain ⟨htouches, hquiet⟩ := quiet_withoutHotJournals hentry hdirectory
          refine ⟨htouches, ?_⟩
          cases hlong : isTooLongForJournal (parent ++ [name]) with
          | true => exact .sealed hchanging hread hquiet hlong
          | false => exact .table hchanging hread hquiet hlong

/-- The same, where journals may not matter. -/
theorem rests_of_opened (hparent : t.entry? parent = some .directory)
    (hentry : t.entry? (parent ++ [name]) = some (.file c))
    (h : (if a.unchanging then (t, readMedium c) else t.openFile (parent ++ [name]) c a.access) = (t', m))
    (hm : m.table?.isSome = true) : t.Touches t' parent name ∧ t'.Rests a parent name m := by
  cases hchanging : a.unchanging with
  | true =>
    rw [hchanging, if_pos rfl] at h
    obtain ⟨rfl, rfl⟩ := Prod.mk.inj h
    obtain ⟨rows, rfl⟩ := readMedium_of_table hm
    exact ⟨.refl t parent name, .unchanging hchanging hentry⟩
  | false =>
    rw [hchanging, if_neg Bool.false_ne_true] at h
    exact rests_of_openFile hparent hentry hchanging h hm

/-- **Opening the file at the end of a trail leaves it at rest**, if its table can be read. -/
theorem rests_of_openTrail (hparent : t.entry? parent = some .directory)
    (h : t.openTrail a (t.trailAt (parent ++ [name])) = (t', m)) (hm : m.table?.isSome = true) :
    t.Touches t' parent name ∧ t'.Rests a parent name m := by
  cases hentry : t.entry? (parent ++ [name]) with
  | none =>
    have hnone : t.root.at? (parent ++ [name]) = none := Option.map_eq_none_iff.1 hentry
    rw [openTrail, location_trailAt, last?_trailAt, hnone] at h
    by_cases hcreate : a.access = .create
    · simp only [hcreate, if_true] at h
      have hfree := ne_directory_of_eq_none hentry
      have htouches := touches_put (mem_ownNames name) hparent hfree (.text "")
      have hput := entry?_put hparent hfree (.file (.text "")) (parent ++ [name])
      rw [if_pos rfl] at hput
      rw [← hcreate] at h
      obtain ⟨htouches', hrests⟩ := rests_of_opened ((htouches.directories parent).2 hparent) hput h hm
      exact ⟨htouches.trans htouches', hrests⟩
    · simp only [hcreate, if_false] at h
      obtain ⟨-, rfl⟩ := Prod.mk.inj h
      cases hm
  | some e =>
    cases e with
    | directory =>
      obtain ⟨children, hchildren⟩ := entry?_eq_some_directory_iff.1 hentry
      rw [openTrail, location_trailAt, last?_trailAt, hchildren] at h
      obtain ⟨-, rfl⟩ := Prod.mk.inj h
      split at hm <;> cases hm
    | file c =>
      rw [openTrail_of_file hentry] at h
      exact rests_of_opened hparent hentry h hm

/-- **Writing a table leaves it at rest.** -/
theorem Rests.putTable (hparent : t.entry? parent = some .directory) (h : t.Rests a parent name (.table rows))
    (rows' : Table) : (t.putTable (parent ++ [name]) rows').Rests a parent name (.table rows') := by
  cases h with
  | table hchanging hwrite hquiet hlong =>
    have hfile := ne_directory_of_eq_file hquiet.entry
    exact .table hchanging hwrite (quiet_putTable hparent hfile hquiet.noDirectory hquiet.noLog) hlong

end Tree

end LanguageUsage
