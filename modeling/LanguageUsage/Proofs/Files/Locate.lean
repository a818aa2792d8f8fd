import LanguageUsage.Files.Database
import LanguageUsage.Proofs.Files.Tree

/-!
# The file of an address

The location of the file that an address names is told by the names alone. What is there decides only whether the names
can be followed, and they can again in any tree with the same directories and no other files on the way.

* `Tree.Seeks`: names are followed for an address;
* `Tree.locate_eq_some_iff`: the file that an address names;
* `Tree.Edits.locate`, `Tree.Edits.locate_in`: it is found again.
-/

namespace LanguageUsage

namespace Tree

variable {t t' : Tree} {l l' l'' : Location} {names names' : List String} {file : String}

/-! ### Following names -/

/-- Names are followed from a location for an address: `..` leads back, and there may be no file on the way. -/
inductive Seeks (t : Tree) : Location → List String → Location → Prop
  | nil {l : Location} : Seeks t l [] l
  | up {l l' : Location} {names : List String} (h : Seeks t l.dropLast names l') : Seeks t l (".." :: names) l'
  | down {l l' : Location} {name : String} {names : List String} (hname : name ≠ "..")
      (hfile : ∀ c, t.entry? l ≠ some (.file c))
      (hsize : t.entry? l = some .directory → name.utf8ByteSize ≤ maxNameSize)
      (h : Seeks t (l ++ [name]) names l') : Seeks t l (name :: names) l'

theorem Seeks.append (h : t.Seeks l names l') (h' : t.Seeks l' names' l'') : t.Seeks l (names ++ names') l'' := by
  induction h with
  | nil => exact h'
  | up _ ih => exact .up (ih h')
  | down hname hfile hsize _ ih => exact .down hname hfile hsize (ih h')

theorem Seeks.of_append (h : t.Seeks l (names ++ names') l'') : ∃ l', t.Seeks l names l' ∧ t.Seeks l' names' l'' := by
  induction names generalizing l with
  | nil => exact ⟨l, .nil, h⟩
  | cons name names ih =>
    cases h with
    | up h =>
      obtain ⟨l', hfirst, hrest⟩ := ih h
      exact ⟨l', .up hfirst, hrest⟩
    | down hname hfile hsize h =>
      obtain ⟨l', hfirst, hrest⟩ := ih h
      exact ⟨l', .down hname hfile hsize hfirst, hrest⟩

/-- Where names lead to does not depend on what is there. -/
theorem Seeks.unique (h : t.Seeks l names l') (h' : t'.Seeks l names l'') : l'' = l' := by
  induction h with
  | nil =>
    cases h'
    rfl
  | up _ ih =>
    cases h' with
    | up h' => exact ih h'
    | down hname _ _ _ => exact absurd rfl hname
  | down hname _ _ _ ih =>
    cases h' with
    | up h' => exact absurd rfl hname
    | down _ _ _ h' => exact ih h'

/-- What leads through directories is followed in the same way. -/
theorem Leads.seeks (h : t.Leads l names l') : t.Seeks l names l' := by
  induction h with
  | nil => exact .nil
  | @cons l l' name names hdir hsize _ ih =>
    rw [onward] at ih
    by_cases hname : name = ".."
    · rw [if_pos hname] at ih
      exact hname ▸ .up ih
    · rw [if_neg hname] at ih
      exact .down hname (fun c h => by simp [hdir] at h) (fun _ => hsize) ih

/-- Names are followed in the same way where there are the same directories, and no other files. -/
theorem Edits.seeks (h : t.Edits t')
    (hfiles : ∀ l c, t'.entry? l = some (.file c) → ∃ c', t.entry? l = some (.file c')) (hseeks : t.Seeks l names l') :
    t'.Seeks l names l' := by
  induction hseeks with
  | nil => exact .nil
  | up _ ih => exact .up ih
  | @down l l' name names hname hfile hsize _ ih =>
    refine .down hname (fun c hc => ?_) (fun hdir => hsize ((h.directories l).1 hdir)) ih
    obtain ⟨c', hc'⟩ := hfiles l c hc
    exact hfile c' hc'

theorem locateFrom_eq_some_iff {trail : Trail} :
    t.locateFrom (t.trailAt l) names = some trail ↔ ∃ l', t.Seeks l names l' ∧ trail = t.trailAt l' := by
  induction names generalizing l with
  | nil =>
    constructor
    · intro h
      exact ⟨l, .nil, (Option.some.inj h).symm⟩
    · rintro ⟨l', hseeks, rfl⟩
      cases hseeks
      rfl
  | cons name names ih =>
    rw [locateFrom]
    by_cases hname : name = ".."
    · rw [if_pos hname, drop_trailAt, ih]
      constructor
      · rintro ⟨l', hseeks, htrail⟩
        exact ⟨l', hname ▸ .up hseeks, htrail⟩
      · rintro ⟨l', hseeks, htrail⟩
        cases hseeks with
        | up hseeks => exact ⟨l', hseeks, htrail⟩
        | down hnot _ _ _ => exact absurd hname hnot
    · rw [if_neg hname, last?_trailAt, ← trailAt_concat]
      have hdown : (∃ l', t.Seeks l (name :: names) l' ∧ trail = t.trailAt l') ↔
          (∀ c, t.entry? l ≠ some (.file c)) ∧ (t.entry? l = some .directory → name.utf8ByteSize ≤ maxNameSize) ∧
            t.locateFrom (t.trailAt (l ++ [name])) names = some trail := by
        rw [ih]
        constructor
        · rintro ⟨l', hseeks, htrail⟩
          cases hseeks with
          | up _ => exact absurd rfl hname
          | down _ hfile hsize hseeks => exact ⟨hfile, hsize, l', hseeks, htrail⟩
        · rintro ⟨hfile, hsize, l', hseeks, htrail⟩
          exact ⟨l', .down hname hfile hsize hseeks, htrail⟩
      rw [hdown, entry?]
      cases t.root.at? l with
      | none => simp
      | some m =>
        cases m with
        | file c => simp [Node.entry]
        | directory children =>
          by_cases hsize : maxNameSize < name.utf8ByteSize
          · simp [Node.entry, hsize, Nat.not_le.2 hsize]
          · simp [Node.entry, hsize, Nat.not_lt.1 hsize]

/-! ### The file -/

/-- The bytes of the path to a location. -/
def pathSize (l : Location) : Nat := (l.reverse.map fun name => name.utf8ByteSize + 1).sum

theorem size_trailAt (t : Tree) (l : Location) :
    ((t.trailAt l).map fun s => s.1.utf8ByteSize + 1).sum = pathSize l := by
  induction l using List.reverseRecOn with
  | nil => rfl
  | append_singleton l name ih =>
    have hcons : ((t.trailAt (l ++ [name])).map fun s => s.1.utf8ByteSize + 1).sum =
        (name.utf8ByteSize + 1) + ((t.trailAt l).map fun s => s.1.utf8ByteSize + 1).sum := by
      rw [trailAt_concat]
      rfl
    rw [hcons, ih, pathSize, pathSize, List.reverse_concat, List.map_cons, List.sum_cons]

theorem locate_eq_some_iff {trail : Trail} : t.locate file = some trail ↔ ∃ parent name,
    trail = t.trailAt (parent ++ [name]) ∧ t.Seeks (t.startAt (Path.ofString file).start) (Path.ofString file).names
      (parent ++ [name]) ∧ t.entry? parent = some .directory ∧ pathSize (parent ++ [name]) ≤ maxDatabasePathSize := by
  have hstep : ∀ parent name, t.trailAt (parent ++ [name]) =
      (name, (t.last? (t.trailAt parent)).bind (·.child? name)) :: t.trailAt parent := fun parent name =>
    trailAt_concat t parent name
  rw [locate, startOf_eq]
  constructor
  · intro h
    cases hfrom : t.locateFrom (t.trailAt (t.startAt (Path.ofString file).start)) (Path.ofString file).names with
    | none => simp [hfrom] at h
    | some found =>
      obtain ⟨l, hseeks, rfl⟩ := locateFrom_eq_some_iff.1 hfrom
      cases l using List.reverseRecOn with
      | nil =>
        have hnil : t.trailAt [] = [] := rfl
        simp [hfrom, hnil] at h
      | append_singleton parent name =>
        simp only [hfrom, hstep] at h
        rw [← hstep, size_trailAt, last?_trailAt] at h
        split at h
        · next children hdir =>
          split at h
          · next hsize =>
            exact ⟨parent, name, (Option.some.inj h).symm, hseeks,
              entry?_eq_some_directory_iff.2 ⟨children, hdir⟩, hsize⟩
          · cases h
        · cases h
  · rintro ⟨parent, name, rfl, hseeks, hdir, hsize⟩
    obtain ⟨children, hchildren⟩ := entry?_eq_some_directory_iff.1 hdir
    rw [locateFrom_eq_some_iff.2 ⟨_, hseeks, rfl⟩, ← size_trailAt t] at *
    simp only [hstep] at hsize ⊢
    simp only [last?_trailAt, hchildren]
    exact if_pos hsize

theorem locate_trailAt_iff : t.locate file = some (t.trailAt l) ↔
    t.Seeks (t.startAt (Path.ofString file).start) (Path.ofString file).names l ∧
      ∃ parent name, l = parent ++ [name] ∧ t.entry? parent = some .directory ∧ pathSize l ≤ maxDatabasePathSize := by
  rw [locate_eq_some_iff]
  constructor
  · rintro ⟨parent, name, htrail, hseeks, hdir, hsize⟩
    have hl : l = parent ++ [name] := by rw [← location_trailAt t l, htrail, location_trailAt]
    exact ⟨hl ▸ hseeks, parent, name, hl, hdir, hl ▸ hsize⟩
  · rintro ⟨hseeks, parent, name, rfl, hdir, hsize⟩
    exact ⟨parent, name, rfl, hseeks, hdir, hsize⟩

/-- A trail to the file leads to where it led before. -/
theorem locate_unique {trail : Trail} (hhere : t'.here = t.here) (h : t.locate file = some (t.trailAt l))
    (h' : t'.locate file = some trail) : trail = t'.trailAt l := by
  obtain ⟨parent, name, rfl, hseeks, -⟩ := locate_eq_some_iff.1 h'
  rw [startAt_congr hhere] at hseeks
  rw [(locate_trailAt_iff.1 h).1.unique hseeks]

/-- The file is found again where there are the same directories, and no other files. -/
theorem Edits.locate (h : t.Edits t')
    (hfiles : ∀ l c, t'.entry? l = some (.file c) → ∃ c', t.entry? l = some (.file c'))
    (hlocate : t.locate file = some (t.trailAt l)) : t'.locate file = some (t'.trailAt l) := by
  obtain ⟨hseeks, parent, name, hl, hdir, hsize⟩ := locate_trailAt_iff.1 hlocate
  refine locate_trailAt_iff.2 ⟨?_, parent, name, hl, (h.directories parent).2 hdir, hsize⟩
  rw [startAt_congr h.here]
  exact h.seeks hfiles hseeks

/-- The file is found again if the path to it leads through directories. -/
theorem Edits.locate_in (h : t.Edits t') (hparent : t.isDirectory (Path.ofString file).parent = true)
    (hlocate : t.locate file = some (t.trailAt l)) (hl : t.entry? l ≠ some .directory) :
    t'.locate file = some (t'.trailAt l) := by
  obtain ⟨hseeks, hplace⟩ := locate_trailAt_iff.1 hlocate
  obtain ⟨directory, hreach, hdir⟩ := isDirectory_iff.1 hparent
  have hleads : t.Leads (t.startAt (Path.ofString file).start) (Path.ofString file).names.dropLast directory :=
    (reach_eq_ok_iff.1 hreach).2.2
  have hdirs : ∀ l, t.entry? l = some .directory → t'.entry? l = some .directory := fun l => (h.directories l).2
  have hseeks' : t'.Seeks (t.startAt (Path.ofString file).start) (Path.ofString file).names l := by
    cases hnames : (Path.ofString file).names using List.reverseRecOn with
    | nil =>
      -- the path would lead to its directory
      rw [hnames] at hseeks hleads
      cases hseeks
      cases hleads
      exact absurd hdir hl
    | append_singleton before last =>
      rw [hnames] at hseeks
      rw [hnames, List.dropLast_concat] at hleads
      obtain ⟨middle, hbefore, hlast⟩ := hseeks.of_append
      obtain rfl := hbefore.unique hleads.seeks
      refine (hleads.mono hdirs).seeks.append ?_
      cases hlast with
      | up hend =>
        cases hend
        exact .up .nil
      | down hname _ hsize hend =>
        cases hend
        exact .down hname (fun c hc => by rw [hdirs _ hdir] at hc; cases hc) (fun _ => hsize hdir) .nil
  obtain ⟨parent, name, hconcat, hdir', hsize⟩ := hplace
  refine locate_trailAt_iff.2 ⟨?_, parent, name, hconcat, hdirs _ hdir', hsize⟩
  rw [startAt_congr h.here]
  exact hseeks'

end Tree

end LanguageUsage
