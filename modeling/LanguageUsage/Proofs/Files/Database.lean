import LanguageUsage.Proofs.Files.Directories
import LanguageUsage.Proofs.Files.Journal
import LanguageUsage.Proofs.Service.Reopening

/-!
# Databases in a tree

Once a database in a file has been opened, there are no directories left to make either. So it is found as it was when
it is opened again, and after it was kept it is found as it was kept. Other files are spared, unless they are taken for
journals of the database.

* `Tree.Hosts`: a tree in which a database is opened without a change;
* `Tree.Opens`, `Tree.exists_opens`: how a database is opened;
* `Tree.IsJournal`, `Tree.Spares`: the journals of a database, and a file that is left alone;
* `Tree.hosts_of_openDatabase`, `Tree.Hosts.keep`: a tree that hosts a database is left by opening the database, and by
  keeping it.
-/

namespace LanguageUsage

namespace Tree

variable {t t' : Tree} {l l' parent : Location} {name path file : String} {a : Address} {m : Medium} {rows : Table}

/-- A tree in which the database at a path is opened without a change, and is this medium. -/
structure Hosts (t : Tree) (path : String) (a : Address) (parent : Location) (name : String) (m : Medium) : Prop where
  lasting : path ≠ volatilePath
  directory : t.isDirectory (Path.ofString path).parent = true
  nameable : path.toList.contains '\x00' = false
  address : Address.read path = some a
  located : ∃ file, a.file = some file ∧ t.locate file = some (t.trailAt (parent ++ [name]))
  within : t.entry? parent = some .directory
  rests : t.Rests a parent name m

/-- How a database is opened that keeps its rows and can be read: the directories on the way are made, and then the file
is opened that the address names. -/
structure Opens (t t₀ : Tree) (path : String) (a : Address) (file : String) (parent : Location) (name : String) :
    Prop where
  lasting : path ≠ volatilePath
  made : t.makeDirectories (Path.ofString path).parent = (t₀, .ok ())
  nameable : path.toList.contains '\x00' = false
  address : Address.read path = some a
  named : a.file = some file
  located : t₀.locate file = some (t₀.trailAt (parent ++ [name]))
  within : t₀.entry? parent = some .directory
  opened : t.openDatabase path = ((t₀.openTrail a (t₀.trailAt (parent ++ [name]))).1,
    { path := path, medium := (t₀.openTrail a (t₀.trailAt (parent ++ [name]))).2 })
  table : (t₀.openTrail a (t₀.trailAt (parent ++ [name]))).2.table?.isSome = true

theorem exists_opens (h : (t.openDatabase path).2.Keeps) :
    ∃ t₀ a file parent name, t.Opens t₀ path a file parent name := by
  obtain ⟨hlasting, htable⟩ := h
  by_cases hvolatile : path = volatilePath
  · rw [openDatabase, if_pos hvolatile] at hlasting
    cases hlasting
  · have hopen : t.openDatabase path = t.openDatabase path := rfl
    rw [openDatabase, if_neg hvolatile] at hlasting htable
    conv_rhs at hopen => rw [openDatabase, if_neg hvolatile]
    cases hmake : t.makeDirectories (Path.ofString path).parent with
    | mk t₀ r =>
      cases r with
      | error f =>
        rw [hmake] at htable
        split at htable <;> first | cases htable | simp_all
      | ok _ =>
        simp only [hmake] at hlasting htable hopen
        cases hnul : path.toList.contains '\x00' with
        | true =>
          rw [hnul] at htable
          cases htable
        | false =>
          simp only [hnul, Bool.false_eq_true, if_false] at hlasting htable hopen
          cases ha : Address.read path with
          | none =>
            rw [ha] at htable
            cases htable
          | some a =>
            simp only [ha] at hlasting htable hopen
            cases hfile : a.file with
            | none =>
              rw [hfile] at hlasting
              cases hlasting
            | some file =>
              rw [openAddress, hfile] at htable hopen
              cases hlocate : t₀.locate file with
              | none =>
                simp only [hlocate] at htable
                cases htable
              | some trail =>
                simp only [hlocate] at htable hopen
                obtain ⟨parent, name, rfl, -, hparent, -⟩ := locate_eq_some_iff.1 hlocate
                exact ⟨t₀, a, file, parent, name, hvolatile, hmake, hnul, ha, hfile, hlocate, hparent, hopen, htable⟩

/-- A database that a tree hosts is opened without a change. -/
theorem Hosts.openDatabase (h : t.Hosts path a parent name m) :
    t.openDatabase path = (t, { path := path, medium := m }) := by
  obtain ⟨file, hfile, hlocate⟩ := h.located
  rw [Tree.openDatabase, if_neg h.lasting, makeDirectories_of_isDirectory h.directory]
  simp only [h.nameable, Bool.false_eq_true, if_false, h.address, openAddress, hfile, hlocate]
  rw [h.rests.openTrail]
  rfl

/-- Where the file of the database at a path is. -/
def site? (t : Tree) (path : String) : Option Location :=
  ((Address.read path).bind (·.file)).bind fun file => (t.locate file).map Trail.location

/-- What the name of the index of a log ends with. A database whose changes go to a log has one while it is in use. -/
def indexEnding : String := "-shm"

/-- The location is that of a journal of the database at a path, or of the index that there may be beside a log. Only
databases that others made have an index: it is never touched here, but the name is not free. -/
def IsJournal (t : Tree) (path : String) (l : Location) : Prop :=
  ∃ site, t.site? path = some site ∧
    (l = beside site journalEnding ∨ l = beside site logEnding ∨ l = beside site indexEnding)

theorem Hosts.isJournal_iff (h : t.Hosts path a parent name m) :
    t.IsJournal path l ↔ l = parent ++ [name ++ journalEnding] ∨ l = parent ++ [name ++ logEnding] ∨
      l = parent ++ [name ++ indexEnding] := by
  obtain ⟨file, hfile, hlocate⟩ := h.located
  have hsite : t.site? path = some (parent ++ [name]) := by
    rw [site?, h.address, Option.bind_some, hfile, Option.bind_some, hlocate, Option.map_some, location_trailAt]
  rw [IsJournal, hsite]
  simp only [Option.some.injEq, exists_eq_left', beside_concat]

/-- A text that is still found under the paths that lead to it. -/
structure Spares (t t' : Tree) (l : Location) : Prop where
  here : t'.here = t.here
  directories : ∀ l, t.entry? l = some .directory → t'.entry? l = some .directory
  entry : t'.entry? l = t.entry? l

theorem Spares.refl (t : Tree) (l : Location) : t.Spares t l := ⟨rfl, fun _ h => h, rfl⟩

theorem Spares.trans {t'' : Tree} (h : t.Spares t' l) (h' : t'.Spares t'' l) : t.Spares t'' l :=
  ⟨h'.here.trans h.here, fun l hl => h'.directories l (h.directories l hl), h'.entry.trans h.entry⟩

theorem Spares.reach {p : Path} (h : t.Spares t' l) (hreach : t.reach p = .ok l') : t'.reach p = .ok l' :=
  reach_mono h.here h.directories hreach

/-- What is neither the database nor one of its journals is spared. -/
theorem Touches.spares (h : t.Touches t' parent name) (hfile : l ≠ parent ++ [name])
    (hjournal : ¬ (l = parent ++ [name ++ journalEnding] ∨ l = parent ++ [name ++ logEnding] ∨
      l = parent ++ [name ++ indexEnding])) : t.Spares t' l := by
  refine ⟨h.here, fun l hl => (h.directories l).2 hl, h.elsewhere l fun own hown => ?_⟩
  rcases List.mem_cons.1 hown with rfl | hown
  · exact hfile
  · rcases List.mem_cons.1 hown with rfl | hown
    · exact fun hl => hjournal (.inl hl)
    · obtain rfl := List.mem_singleton.1 hown
      exact fun hl => hjournal (.inr (.inl hl))

/-- A text in which there is something is no database. -/
theorem eq_empty_of_openTrail {s : String} (hentry : t.entry? l = some (.file (.text s)))
    (hm : (t.openTrail a (t.trailAt l)).2.table?.isSome = true) : s = "" := by
  by_contra hs
  have htext : Content.text s ≠ .text "" := by simpa using hs
  rw [openTrail_of_file hentry, openFile, if_neg htext] at hm
  split at hm
  · cases hm
  · split at hm
    · split at hm <;> cases hm
    · split at hm <;> cases hm

/-- A database is located again where it was opened. For a path that is an address with options this has to be known. -/
theorem Opens.located_after {t₀ t₁ : Tree} (h : t.Opens t₀ path a file parent name)
    (hdirectory : t₀.isDirectory (Path.ofString path).parent = true) (hedits : t₀.Edits t₁)
    (hentry : t₁.entry? (parent ++ [name]) ≠ some .directory)
    (hagain : path.startsWith Address.heading = true → (t₁.openDatabase path).2.Keeps) :
    t₁.locate file = some (t₁.trailAt (parent ++ [name])) := by
  cases haddress : path.startsWith Address.heading with
  | true =>
    obtain ⟨t₂, a', file', parent', name', hopens⟩ := exists_opens (hagain haddress)
    have hmade := hopens.made
    rw [makeDirectories_of_isDirectory (hedits.isDirectory hdirectory)] at hmade
    obtain rfl := (Prod.mk.inj hmade).1
    obtain rfl : a = a' := Option.some.inj (h.address.symm.trans hopens.address)
    obtain rfl : file = file' := Option.some.inj (h.named.symm.trans hopens.named)
    rw [hopens.located, locate_unique hedits.here h.located hopens.located]
  | false =>
    have hplain : file = path := by
      have ha := h.address
      rw [Address.read, haddress, if_neg Bool.false_ne_true, if_neg h.lasting] at ha
      have hnamed := h.named
      rw [← Option.some.inj ha] at hnamed
      exact (Option.some.inj hnamed).symm
    have hlocated := h.located
    rw [hplain] at hlocated ⊢
    exact hedits.locate_in hdirectory hlocated (mt (hedits.directories _).2 hentry)

/-- **Opening a database leaves a tree that hosts it,** and spares texts that are no journals of it. A path that is an
address with options has to be one under which the database is found again. -/
theorem hosts_of_openDatabase (hplace : t.HasPlace) (h : (t.openDatabase path).2.Keeps)
    (hagain : path.startsWith Address.heading = true → ((t.openDatabase path).1.openDatabase path).2.Keeps) :
    ∃ a parent name m, (t.openDatabase path).1.Hosts path a parent name m ∧
      (t.openDatabase path).2 = { path := path, medium := m } ∧
      ∀ l s, t.entry? l = some (.file (.text s)) → s ≠ "" → ¬ (t.openDatabase path).1.IsJournal path l →
        t.Spares (t.openDatabase path).1 l := by
  obtain ⟨t₀, a, file, parent, name, hopens⟩ := exists_opens h
  obtain ⟨hgrows, hdirectory⟩ := grows_of_makeDirectories hplace hopens.made
  have htable := hopens.table
  rw [hopens.opened] at hagain ⊢
  cases htrail : t₀.openTrail a (t₀.trailAt (parent ++ [name])) with
  | mk t₁ m =>
    rw [htrail] at hagain htable
    obtain ⟨htouches, hrests⟩ := rests_of_openTrail hopens.within htrail htable
    have hlocated : t₁.locate file = some (t₁.trailAt (parent ++ [name])) := by
      obtain ⟨rows, hentry⟩ := hrests.entry
      exact hopens.located_after hdirectory htouches.toEdits (ne_directory_of_eq_file hentry) hagain
    have hhosts : t₁.Hosts path a parent name m := ⟨hopens.lasting, htouches.isDirectory hdirectory, hopens.nameable,
      hopens.address, ⟨file, hopens.named, hlocated⟩, (htouches.directories parent).2 hopens.within, hrests⟩
    refine ⟨a, parent, name, m, hhosts, rfl, fun l s hl hs hjournal => ?_⟩
    have hl₀ := hgrows.entries l _ hl
    have hfile : l ≠ parent ++ [name] := by
      rintro rfl
      exact hs (eq_empty_of_openTrail hl₀ hopens.table)
    exact .trans ⟨hgrows.here, fun l => hgrows.entries l .directory, hl₀.trans hl.symm⟩
      (htouches.spares hfile (mt hhosts.isJournal_iff.2 hjournal))

/-- **Keeping a database leaves a tree that hosts it as it is then,** and spares texts that are no journals of it. -/
theorem Hosts.keep (h : t.Hosts path a parent name (.table rows)) (rows' : Table) (isOpen : Bool) :
    let kept := t.keep { path := path, medium := .table rows', connected := isOpen }
    kept.Hosts path a parent name (.table rows') ∧
      ∀ l s, t.entry? l = some (.file (.text s)) → ¬ t.IsJournal path l → t.Spares kept l := by
  intro kept
  obtain ⟨file, hfile, hlocate⟩ := h.located
  have hquiet : t.Quiet parent name rows := by
    cases h.rests with
    | table _ _ hquiet _ => exact hquiet
  have hkept : kept = if t.entry? (parent ++ [name]) = some (.file (.table rows')) then t
      else t.putTable (parent ++ [name]) rows' := by
    have haddress : (Address.read path).bind (·.file) = some file := by rw [h.address, Option.bind_some, hfile]
    simp only [kept, Tree.keep, haddress, hlocate, location_trailAt]
  by_cases hsame : t.entry? (parent ++ [name]) = some (.file (.table rows'))
  · rw [if_pos hsame] at hkept
    rw [hquiet.entry] at hsame
    cases hsame
    rw [hkept]
    exact ⟨h, fun l s _ _ => .refl t l⟩
  · rw [if_neg hsame] at hkept
    rw [hkept]
    have hnodir := ne_directory_of_eq_file hquiet.entry
    have htouches := touches_putTable h.within hnodir hquiet.noDirectory rows'
    have hentry := entry?_putTable h.within hnodir hquiet.noDirectory rows'
    have hfiles : ∀ l c, Tree.entry? (t.putTable (parent ++ [name]) rows') l = some (.file c) →
        ∃ c', t.entry? l = some (.file c') := by
      intro l c hc
      rw [hentry] at hc
      split at hc
      · next hl => exact ⟨_, hl ▸ hquiet.entry⟩
      · split at hc
        · cases hc
        · exact ⟨c, hc⟩
    refine ⟨⟨h.lasting, htouches.isDirectory h.directory, h.nameable, h.address,
      ⟨file, hfile, htouches.locate hfiles hlocate⟩, (htouches.directories parent).2 h.within,
      h.rests.putTable h.within rows'⟩, fun l s hl hjournal => htouches.spares ?_ (mt h.isJournal_iff.2 hjournal)⟩
    rintro rfl
    rw [hquiet.entry] at hl
    cases hl

end Tree

end LanguageUsage
