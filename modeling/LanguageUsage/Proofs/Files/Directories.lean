import LanguageUsage.Proofs.Files.Tree

/-!
# Making directories

Directories are made where there is nothing, and no file comes of it. When not all of them can be made, it is the same
the next time, and no more are made.

* `Path.utf8ByteSize_parent_le`, `Path.utf8ByteSize_le_child`: how long paths are when they are written;
* `Tree.Grows`, `Tree.Deepens`: a tree in which everything stays, and one in which nothing but directories is added;
* `Tree.isDirectory_parent`, `Tree.up_mem_names`: what a path leads to, and what is in front of it;
* `Tree.ensureDirectory_cases`: a directory is made, or it is there, or it cannot be made;
* `Tree.makeDirectories_of_isDirectory`, `Tree.makeDirectories_spec`: what comes of making directories;
* `Tree.makeDirectories_again`: directories that could not be made cannot be made the next time.
-/

namespace LanguageUsage

/-! ### Paths -/

theorem Path.toString_concat (start : Start) (names : List String) (name : String) :
    Path.toString ⟨start, names ++ [name]⟩ = start.slashes ++ "/".intercalate (names ++ [name]) := by
  cases start <;> cases names <;> rfl

/-- A path is written with no more than the path to something inside it, or as a point. -/
theorem Path.utf8ByteSize_parent_le (p : Path) : p.parent.toString.utf8ByteSize ≤ max 1 p.toString.utf8ByteSize := by
  obtain ⟨start, names⟩ := p
  cases names using List.reverseRecOn with
  | nil => exact Nat.le_max_right _ _
  | append_singleton names name =>
    have hparent : Path.parent ⟨start, names ++ [name]⟩ = ⟨start, names⟩ :=
      congrArg (Path.mk start) List.dropLast_concat
    rw [hparent, toString_concat, String.utf8ByteSize_append]
    cases names using List.reverseRecOn with
    | nil =>
      cases start with
      | here => exact Nat.le_max_left _ _
      | root => exact Nat.le_max_left _ _
      | doubleRoot => exact Nat.le_trans (Nat.le_add_right 2 _) (Nat.le_max_right _ _)
    | append_singleton names name' =>
      rw [toString_concat, String.intercalate_append_of_ne_nil (by simp) (List.cons_ne_nil name []),
        String.utf8ByteSize_append, String.utf8ByteSize_append, String.utf8ByteSize_append]
      omega

/-- The last name is written. -/
theorem Path.utf8ByteSize_le_child (p : Path) (name : String) :
    name.utf8ByteSize ≤ (p.child name).toString.utf8ByteSize := by
  rw [child, toString_concat, String.utf8ByteSize_append]
  cases p.names with
  | nil =>
    rw [List.nil_append, String.intercalate_singleton]
    exact Nat.le_add_left _ _
  | cons first names =>
    rw [String.intercalate_append_of_ne_nil (List.cons_ne_nil first names) (List.cons_ne_nil name []),
      String.utf8ByteSize_append, String.intercalate_singleton]
    omega

namespace Tree

variable {t t' : Tree} {l l' : Location} {name : String} {names : List String} {p : Path} {f : Fault}

/-! ### Trees with more in them -/

/-- What is there stays. -/
structure Grows (t t' : Tree) : Prop where
  here : t'.here = t.here
  entries : ∀ l e, t.entry? l = some e → t'.entry? l = some e

theorem Grows.hasPlace (h : t.Grows t') (hplace : t.HasPlace) : t'.HasPlace := by
  rw [HasPlace, h.here]
  exact h.entries _ _ hplace

theorem Grows.reach (h : t.Grows t') (hreach : t.reach p = .ok l) : t'.reach p = .ok l :=
  reach_mono h.here (fun l => h.entries l .directory) hreach

/-- What is there stays, and no file is added. -/
structure Deepens (t t' : Tree) : Prop extends t.Grows t' where
  files : ∀ l c, t'.entry? l = some (.file c) → t.entry? l = some (.file c)

theorem Deepens.refl (t : Tree) : t.Deepens t := ⟨⟨rfl, fun _ _ => id⟩, fun _ _ => id⟩

theorem Deepens.trans {t'' : Tree} (h : t.Deepens t') (h' : t'.Deepens t'') : t.Deepens t'' :=
  ⟨⟨h'.here.trans h.here, fun l e he => h'.entries l e (h.entries l e he)⟩,
    fun l c hc => h.files l c (h'.files l c hc)⟩

theorem deepens_put (hparent : t.entry? l = some .directory) (hnone : t.entry? (l ++ [name]) = none) :
    t.Deepens (t.put (l ++ [name]) .directory) := by
  have hput := entry?_put hparent (ne_directory_of_eq_none hnone) .directory
  refine ⟨⟨rfl, fun l' e he => ?_⟩, fun l' c hc => ?_⟩
  · rw [hput]
    split
    · next h => rw [h, hnone] at he; cases he
    · exact he
  · rw [hput] at hc
    split at hc
    · cases hc
    · exact hc

/-! ### What paths lead to -/

theorem Leads.of_concat (h : t.Leads l (names ++ [name]) l') :
    ∃ m, t.Leads l names m ∧ t.entry? m = some .directory := by
  induction names generalizing l with
  | nil =>
    cases h with
    | cons hdir _ _ => exact ⟨l, .nil, hdir⟩
  | cons first names ih =>
    cases h with
    | cons hdir hsize h =>
      obtain ⟨m, hm, hmdir⟩ := ih h
      exact ⟨m, .cons hdir hsize hm, hmdir⟩

/-- A path leads to something in a directory. -/
theorem isDirectory_parent (hplace : t.HasPlace) (h : t.reach p = .ok l) : t.isDirectory p.parent = true := by
  obtain ⟨hnul, hsize, hleads⟩ := reach_eq_ok_iff.1 h
  have hnul' : (p.parent.names.any fun n => n.toList.contains '\x00') = false := by
    rw [List.any_eq_false] at hnul ⊢
    exact fun n hn => hnul n (List.dropLast_subset _ hn)
  have hsize' : p.parent.toString.utf8ByteSize ≤ maxPathSize := by
    have hle := p.utf8ByteSize_parent_le
    unfold maxPathSize at *
    omega
  obtain ⟨start, names⟩ := p
  cases names using List.reverseRecOn with
  | nil =>
    cases hleads
    exact isDirectory_iff.2 ⟨_, reach_eq_ok_iff.2 ⟨hnul', hsize', .nil⟩, hplace.isDirectory_startAt start⟩
  | append_singleton names name =>
    obtain ⟨m, hm, hdir⟩ := hleads.of_concat
    refine isDirectory_iff.2 ⟨m, reach_eq_ok_iff.2 ⟨hnul', hsize', ?_⟩, hdir⟩
    have hparent : (Path.parent ⟨start, names ++ [name]⟩).names = names := List.dropLast_concat
    rwa [hparent]

/-- Names none of which leads up lead through what was there before, if they lead to it. -/
theorem Leads.of_entry? (h : t'.Leads l names l') (hup : ".." ∉ names) (hthere : t.entry? l' ≠ none) :
    t.Leads l names l' ∧ t.entry? l ≠ none := by
  induction h with
  | nil => exact ⟨.nil, hthere⟩
  | @cons l l' name names _ hsize _ ih =>
    obtain ⟨hname, hnames⟩ := not_or.1 (mt List.mem_cons.2 hup)
    obtain ⟨hleads, hnext⟩ := ih hnames hthere
    have honward : onward l name = l ++ [name] := if_neg (Ne.symm hname)
    have hdir : t.entry? l = some .directory := entry?_of_concat (honward ▸ hnext)
    exact ⟨.cons hdir hsize hleads, by rw [hdir]; exact Option.some_ne_none _⟩

/-- **What comes to be in the way of a path** was not there before, unless the path leads up somewhere. -/
theorem up_mem_names (hhere : t'.here = t.here) (habsent : t.isThere p ≠ .ok true) (hreach : t'.reach p = .ok l)
    (hthere : t.entry? l ≠ none) : ".." ∈ p.names := by
  by_contra hup
  obtain ⟨hnul, hsize, hleads⟩ := reach_eq_ok_iff.1 hreach
  rw [startAt_congr hhere] at hleads
  obtain ⟨e, he⟩ := Option.ne_none_iff_exists'.1 hthere
  exact habsent (isThere_eq_true_iff.2
    ⟨l, e, reach_eq_ok_iff.2 ⟨hnul, hsize, (hleads.of_entry? hup hthere).1⟩, he⟩)

/-! ### Making directories -/

/-- A directory that is there is not made. -/
theorem ensureDirectory_of_isDirectory (h : t.isDirectory p = true) : t.ensureDirectory p = (t, .ok ()) := by
  obtain ⟨l, hl, hdir⟩ := isDirectory_iff.1 h
  obtain ⟨children, hchildren⟩ := entry?_eq_some_directory_iff.1 hdir
  have hmake : t.makeDirectory p = .error (.fileExists p.toString) := by
    rw [makeDirectory, trailOf_eq_ok_iff.2 ⟨l, hl, rfl⟩]
    simp only [last?_trailAt, hchildren]
  rw [ensureDirectory, hmake]
  simp only [h, if_true]

theorem makeDirectoriesFrom_of_isDirectory {start : Path.Start} (h : t.isDirectory ⟨start, names.reverse⟩ = true)
    (depth : Nat) : t.makeDirectoriesFrom start depth names = (t, .ok ()) := by
  cases names with
  | nil => rw [makeDirectoriesFrom, ← List.reverse_nil, ensureDirectory_of_isDirectory h]
  | cons name names => rw [makeDirectoriesFrom, ensureDirectory_of_isDirectory h]

theorem makeDirectories_of_isDirectory (h : t.isDirectory p = true) : t.makeDirectories p = (t, .ok ()) :=
  makeDirectoriesFrom_of_isDirectory (by rwa [List.reverse_reverse]) maxNewDirectories

/-- A directory is made, or it is there, or it cannot be made. -/
theorem ensureDirectory_cases (hplace : t.HasPlace) (p : Path) :
    (∃ parent name, t.reach p = .ok (parent ++ [name]) ∧ t.entry? parent = some .directory ∧
      t.entry? (parent ++ [name]) = none ∧ t.ensureDirectory p = (t.put (parent ++ [name]) .directory, .ok ())) ∨
    (t.isDirectory p = true ∧ t.ensureDirectory p = (t, .ok ())) ∨
    ∃ f, t.isDirectory p = false ∧ t.ensureDirectory p = (t, .error f) := by
  by_cases hdir : t.isDirectory p = true
  · exact .inr (.inl ⟨hdir, ensureDirectory_of_isDirectory hdir⟩)
  · rw [Bool.not_eq_true] at hdir
    cases hmake : t.makeDirectory p with
    | error f =>
      refine .inr (.inr ⟨f, hdir, ?_⟩)
      rw [ensureDirectory, hmake]
      cases f <;> simp [hdir]
    | ok t' =>
      refine .inl ?_
      have hensure : t.ensureDirectory p = (t', .ok ()) := by rw [ensureDirectory, hmake]
      cases htrail : t.trailOf p with
      | error o => simp [makeDirectory, htrail] at hmake
      | ok trail =>
        obtain ⟨l, hl, rfl⟩ := trailOf_eq_ok_iff.1 htrail
        simp only [makeDirectory, htrail, last?_trailAt] at hmake
        cases hm : t.root.at? l with
        | some m => simp [hm] at hmake
        | none =>
          rw [hm, location_trailAt] at hmake
          obtain rfl : t.put l .directory = t' := Except.ok.inj hmake
          have hnone : t.entry? l = none := by rw [entry?_eq, Node.entryAt?, hm]; rfl
          obtain ⟨-, -, hleads⟩ := reach_eq_ok_iff.1 hl
          obtain ⟨parent, name, rfl, hparent⟩ := hleads.parent (hplace.entry?_startAt _) hnone
          exact ⟨parent, name, hl, hparent, hnone, hensure⟩

/-- A directory that could be made is there, and nothing is lost. -/
theorem ensureDirectory_spec (hplace : t.HasPlace) (p : Path) :
    t.Deepens (t.ensureDirectory p).1 ∧
      ((t.ensureDirectory p).2 = .ok () → (t.ensureDirectory p).1.isDirectory p = true) := by
  rcases ensureDirectory_cases hplace p with ⟨parent, name, hl, hparent, hnone, h⟩ | ⟨hdir, h⟩ | ⟨f, -, h⟩
  · have hdeepens := deepens_put hparent hnone
    rw [h]
    refine ⟨hdeepens, fun _ => isDirectory_iff.2 ⟨parent ++ [name], hdeepens.reach hl, ?_⟩⟩
    rw [entry?_put hparent (ne_directory_of_eq_none hnone), if_pos rfl]
  · rw [h]
    exact ⟨.refl t, fun _ => hdir⟩
  · rw [h]
    exact ⟨.refl t, nofun⟩

theorem makeDirectoriesFrom_spec (hplace : t.HasPlace) (start : Path.Start) (depth : Nat) (names : List String) :
    t.Deepens (t.makeDirectoriesFrom start depth names).1 ∧ ((t.makeDirectoriesFrom start depth names).2 = .ok () →
      (t.makeDirectoriesFrom start depth names).1.isDirectory ⟨start, names.reverse⟩ = true) := by
  induction names generalizing t depth with
  | nil =>
    rw [makeDirectoriesFrom]
    exact ensureDirectory_spec hplace ⟨start, []⟩
  | cons name names ih =>
    have hfirst := ensureDirectory_spec hplace ⟨start, (name :: names).reverse⟩
    rw [makeDirectoriesFrom]
    split
    · next t₁ _ h₁ =>
      rw [h₁] at hfirst
      cases depth with
      | zero => exact ⟨hfirst.1, nofun⟩
      | succ depth =>
        have hplace₁ := hfirst.1.hasPlace hplace
        have habove := ih hplace₁ depth
        dsimp only
        split
        · next t₂ h₂ =>
          rw [h₂] at habove
          obtain ⟨hdeepens, hdirectory⟩ :=
            ensureDirectory_spec (habove.1.hasPlace hplace₁) ⟨start, (name :: names).reverse⟩
          exact ⟨(hfirst.1.trans habove.1).trans hdeepens, hdirectory⟩
        · next t₂ f h₂ =>
          rw [h₂] at habove
          exact ⟨hfirst.1.trans habove.1, nofun⟩
    · next t₁ r _ h₁ =>
      rw [h₁] at hfirst
      exact hfirst

/-- Directories that could be made are there, and nothing is lost. -/
theorem makeDirectories_spec (hplace : t.HasPlace) (p : Path) :
    t.Deepens (t.makeDirectories p).1 ∧
      ((t.makeDirectories p).2 = .ok () → (t.makeDirectories p).1.isDirectory p = true) := by
  have hspec := makeDirectoriesFrom_spec hplace p.start maxNewDirectories p.names.reverse
  rwa [List.reverse_reverse] at hspec

theorem grows_of_makeDirectories (hplace : t.HasPlace) (h : t.makeDirectories p = (t', .ok ())) :
    t.Grows t' ∧ t'.isDirectory p = true := by
  have hspec := makeDirectories_spec hplace p
  rw [h] at hspec
  exact ⟨hspec.1.toGrows, hspec.2 rfl⟩

/-! ### Making directories again -/

/-- A directory that could not be made is not there, and nothing has changed. -/
theorem of_ensureDirectory_error (hplace : t.HasPlace) (h : t.ensureDirectory p = (t', .error f)) :
    t' = t ∧ t.isDirectory p = false := by
  rcases ensureDirectory_cases hplace p with ⟨_, _, -, -, -, h'⟩ | ⟨-, h'⟩ | ⟨f', hdir, h'⟩
  · cases h.symm.trans h'
  · cases h.symm.trans h'
  · cases h.symm.trans h'
    exact ⟨rfl, hdir⟩

/-- No directory is made in one that is not there. -/
theorem exists_error_of_parent (hplace : t.HasPlace) (h : t.isDirectory p.parent = false) :
    t.isDirectory p = false ∧ ∃ f, t.ensureDirectory p = (t, .error f) := by
  have hreach : ∀ l, t.reach p ≠ .ok l := by
    intro l hl
    rw [isDirectory_parent hplace hl] at h
    cases h
  have hdir : ¬ t.isDirectory p = true := by
    intro hdir
    obtain ⟨l, hl, -⟩ := isDirectory_iff.1 hdir
    exact hreach l hl
  rcases ensureDirectory_cases hplace p with ⟨_, _, hl, -⟩ | ⟨hdir', -⟩ | ⟨f, hdir', h⟩
  · exact absurd hl (hreach _)
  · exact absurd hdir' hdir
  · exact ⟨hdir', f, h⟩

/-- A directory that cannot be made is not made when there is nothing to make in front of it. -/
theorem exists_error_of_front {start : Path.Start} {depth : Nat}
    (h : t.ensureDirectory ⟨start, (name :: names).reverse⟩ = (t, .error f))
    (hfront : (t.makeDirectoriesFrom start depth names).1 = t) :
    ∃ f', t.makeDirectoriesFrom start (depth + 1) (name :: names) = (t, .error f') := by
  rw [makeDirectoriesFrom, h]
  cases f with
  | fileMissing q =>
    dsimp only
    split
    · next t₂ h₂ =>
      rw [h₂] at hfront
      obtain rfl : t₂ = t := hfront
      exact ⟨_, h⟩
    · next t₂ f₂ h₂ =>
      rw [h₂] at hfront
      obtain rfl : t₂ = t := hfront
      exact ⟨f₂, rfl⟩
  | _ => exact ⟨_, rfl⟩

theorem makeDirectoriesFrom_again (hplace : t.HasPlace) {start : Path.Start} {depth : Nat}
    (h : t.makeDirectoriesFrom start depth names = (t', .error f)) :
    t'.isDirectory ⟨start, names.reverse⟩ = false ∧
      ∃ f', t'.makeDirectoriesFrom start depth names = (t', .error f') := by
  induction names generalizing t depth f with
  | nil =>
    rw [makeDirectoriesFrom] at h
    obtain ⟨rfl, hdir⟩ := of_ensureDirectory_error hplace h
    exact ⟨hdir, f, by rw [makeDirectoriesFrom, h]⟩
  | cons name names ih =>
    have hagain := h
    rw [makeDirectoriesFrom] at h
    split at h
    · next t₁ q h₁ =>
      obtain ⟨rfl, hdir⟩ := of_ensureDirectory_error hplace h₁
      cases depth with
      | zero =>
        obtain ⟨rfl, -⟩ := Prod.mk.inj h
        exact ⟨hdir, f, hagain⟩
      | succ depth =>
        have hfront := makeDirectoriesFrom_spec hplace start depth names
        dsimp only at h
        split at h
        · next t₂ h₂ =>
          -- those in front are there now
          rw [h₂] at hfront
          obtain ⟨rfl, hdir⟩ := of_ensureDirectory_error (hfront.1.hasPlace hplace) h
          have hthere := makeDirectoriesFrom_of_isDirectory (hfront.2 rfl) depth
          exact ⟨hdir, exists_error_of_front h (by rw [hthere])⟩
        · next t₂ f₂ h₂ =>
          -- one in front could not be made, and without it nothing can be made in it
          obtain ⟨rfl, -⟩ := Prod.mk.inj h
          rw [h₂] at hfront
          obtain ⟨hdir, f', hfailed⟩ := ih hplace h₂
          have hparent : Path.parent ⟨start, (name :: names).reverse⟩ = ⟨start, names.reverse⟩ := by
            rw [Path.parent, List.reverse_cons, List.dropLast_concat]
          obtain ⟨hnone, f₃, hensure⟩ := exists_error_of_parent (hfront.1.hasPlace hplace) (hparent ▸ hdir)
          exact ⟨hnone, exists_error_of_front hensure (by rw [hfailed])⟩
    · next t₁ r _ h₁ =>
      obtain ⟨rfl, rfl⟩ := Prod.mk.inj h
      obtain ⟨rfl, hdir⟩ := of_ensureDirectory_error hplace h₁
      exact ⟨hdir, f, hagain⟩

/-- **Directories that could not be made cannot be made the next time**, and no more are made. -/
theorem makeDirectories_again (hplace : t.HasPlace) (h : t.makeDirectories p = (t', .error f)) :
    t'.isDirectory p = false ∧ ∃ f', t'.makeDirectories p = (t', .error f') := by
  have hagain := makeDirectoriesFrom_again hplace h
  rwa [List.reverse_reverse] at hagain

end Tree

end LanguageUsage
