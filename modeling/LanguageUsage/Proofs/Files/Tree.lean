import LanguageUsage.Proofs.Files.Node
import Mathlib.Data.List.Induction

/-!
# What is where in a tree

A path that leads through directories leads to the same place as long as these are still there.

* `Tree.trailAt`, `Tree.Leads`: the trail to a location, and where names lead;
* `Tree.reach_eq_ok_iff`, `Tree.find_eq_ok_some_iff`: where a path leads, and what is at its end;
* `Tree.entry?_put`, `Tree.entry?_remove`: a tree after one change;
* `Tree.Edits`: a tree with the same directories;
* `Tree.HasPlace`, `Tree.Leads.parent`: what is in a directory;
* `Tree.writeText_of_reach`, `Tree.exists_of_writeText`: when a text is written, and where.
-/

namespace LanguageUsage

/-! ### Trails -/

namespace Tree

variable {t t' : Tree} {l l' l'' : Location} {name : String} {names names' : List String} {e : Entry}

theorem entry?_eq (t : Tree) (l : Location) : t.entry? l = t.root.entryAt? l := rfl

/-- The trail to a location. -/
def trailAt (t : Tree) (l : Location) : Trail := l.foldl t.step []

theorem trailAt_concat (t : Tree) (l : Location) (name : String) :
    t.trailAt (l ++ [name]) = t.step (t.trailAt l) name := by
  rw [trailAt, List.foldl_append]
  rfl

@[simp] theorem last?_trailAt (t : Tree) (l : Location) : t.last? (t.trailAt l) = t.root.at? l := by
  induction l using List.reverseRecOn with
  | nil => exact (Node.at?_nil t.root).symm
  | append_singleton l name ih =>
    have hlast : t.last? (t.trailAt (l ++ [name])) = (t.last? (t.trailAt l)).bind (·.child? name) := by
      rw [trailAt_concat]
      rfl
    rw [hlast, ih, Node.at?_append]
    refine Option.bind_congr fun m _ => ?_
    rw [Node.at?_cons]
    cases m.child? name with
    | none => rfl
    | some m => exact (Node.at?_nil m).symm

@[simp] theorem location_trailAt (t : Tree) (l : Location) : (t.trailAt l).location = l := by
  induction l using List.reverseRecOn with
  | nil => rfl
  | append_singleton l name ih =>
    have hlocation : (t.trailAt (l ++ [name])).location = (t.trailAt l).location ++ [name] := by
      rw [trailAt_concat]
      exact List.reverse_cons
    rw [hlocation, ih]

theorem drop_trailAt (t : Tree) (l : Location) : (t.trailAt l).drop 1 = t.trailAt l.dropLast := by
  cases l using List.reverseRecOn with
  | nil => rfl
  | append_singleton l name =>
    rw [trailAt_concat, List.dropLast_concat]
    rfl

/-! ### Where names lead -/

/-- Where one step leads from a directory. -/
def onward (l : Location) (name : String) : Location := if name = ".." then l.dropLast else l ++ [name]

/-- Names lead on from a location through directories. -/
inductive Leads (t : Tree) : Location → List String → Location → Prop
  | nil {l : Location} : Leads t l [] l
  | cons {l l' : Location} {name : String} {names : List String} (hdir : t.entry? l = some .directory)
      (hsize : name.utf8ByteSize ≤ maxNameSize) (h : Leads t (onward l name) names l') : Leads t l (name :: names) l'

theorem Leads.mono (h : t.Leads l names l')
    (hdirs : ∀ l, t.entry? l = some .directory → t'.entry? l = some .directory) :
    t'.Leads l names l' := by
  induction h with
  | nil => exact .nil
  | cons hdir hsize _ ih => exact .cons (hdirs _ hdir) hsize ih

theorem trailAt_onward (t : Tree) (l : Location) (name : String) :
    (if name = ".." then (t.trailAt l).drop 1 else t.step (t.trailAt l) name) = t.trailAt (onward l name) := by
  rw [onward]
  split
  · exact drop_trailAt t l
  · exact (trailAt_concat t l name).symm

theorem entry?_eq_some_directory_iff :
    t.entry? l = some .directory ↔ ∃ children, t.root.at? l = some (.directory children) := by
  rw [entry?_eq, Node.entryAt?, Option.map_eq_some_iff]
  constructor
  · rintro ⟨m, hm, hentry⟩
    cases m with
    | file c => cases hentry
    | directory children => exact ⟨children, hm⟩
  · rintro ⟨children, hm⟩
    exact ⟨_, hm, rfl⟩

theorem follow_eq_ok_iff {trail : Trail} :
    t.follow (t.trailAt l) names = .ok trail ↔ ∃ l', t.Leads l names l' ∧ trail = t.trailAt l' := by
  induction names generalizing l with
  | nil =>
    constructor
    · intro h
      exact ⟨l, .nil, (Except.ok.inj h).symm⟩
    · rintro ⟨l', hleads, rfl⟩
      cases hleads
      rfl
  | cons name names ih =>
    rw [follow, last?_trailAt]
    constructor
    · intro h
      cases hm : t.root.at? l with
      | none => simp [hm] at h
      | some m =>
        cases m with
        | file c => simp [hm] at h
        | directory children =>
          simp only [hm] at h
          split at h
          · cases h
          · next hsize =>
            rw [trailAt_onward, ih] at h
            obtain ⟨l', hleads, htrail⟩ := h
            exact ⟨l', .cons (entry?_eq_some_directory_iff.2 ⟨children, hm⟩) (Nat.not_lt.1 hsize) hleads, htrail⟩
    · rintro ⟨l', hleads, htrail⟩
      cases hleads with
      | cons hdir hsize hleads =>
        obtain ⟨children, hm⟩ := entry?_eq_some_directory_iff.1 hdir
        simp only [hm]
        rw [if_neg (Nat.not_lt.2 hsize), trailAt_onward, ih]
        exact ⟨l', hleads, htrail⟩

/-- The location from which a path starts. -/
def startAt (t : Tree) : Path.Start → Location
  | .here => t.here
  | .root | .doubleRoot => []

theorem startOf_eq (t : Tree) (start : Path.Start) : t.startOf start = t.trailAt (t.startAt start) := by
  cases start <;> rfl

/-- Where a path leads: no name is too long, all but the last are names of directories. -/
theorem trailOf_eq_ok_iff {p : Path} {trail : Trail} :
    t.trailOf p = .ok trail ↔ ∃ l, t.reach p = .ok l ∧ trail = t.trailAt l := by
  have hreach : ∀ trail, t.trailOf p = .ok trail → trail = t.trailAt trail.location := by
    intro trail h
    rw [trailOf] at h
    split at h
    · cases h
    · split at h
      · cases h
      · rw [startOf_eq, follow_eq_ok_iff] at h
        obtain ⟨l, -, rfl⟩ := h
        rw [location_trailAt]
  constructor
  · intro h
    exact ⟨trail.location, by rw [reach, h]; rfl, hreach trail h⟩
  · rintro ⟨l, hl, rfl⟩
    rw [reach] at hl
    cases htrail : t.trailOf p with
    | error o => simp [htrail, Except.map] at hl
    | ok trail =>
      rw [htrail] at hl
      obtain rfl : trail.location = l := Except.ok.inj hl
      rw [← hreach trail htrail]

theorem reach_eq_ok_iff {p : Path} : t.reach p = .ok l ↔ (p.names.any fun n => n.toList.contains '\x00') = false ∧
    p.toString.utf8ByteSize ≤ maxPathSize ∧ t.Leads (t.startAt p.start) p.names l := by
  have htrail : t.reach p = .ok l ↔ t.trailOf p = .ok (t.trailAt l) := by
    rw [trailOf_eq_ok_iff]
    constructor
    · exact fun h => ⟨l, h, rfl⟩
    · rintro ⟨l', hl', htrail⟩
      rwa [← location_trailAt t l, htrail, location_trailAt]
  rw [htrail, trailOf]
  cases hnul : p.names.any fun n => n.toList.contains '\x00' with
  | true => simp
  | false =>
    rw [if_neg Bool.false_ne_true]
    by_cases hsize : maxPathSize < p.toString.utf8ByteSize
    · rw [if_pos hsize]
      exact ⟨nofun, fun h => absurd h.2.1 (Nat.not_le.2 hsize)⟩
    · rw [if_neg hsize, startOf_eq, follow_eq_ok_iff]
      constructor
      · rintro ⟨l', hleads, htrail⟩
        have hl : l = l' := by rw [← location_trailAt t l, htrail, location_trailAt]
        exact ⟨rfl, Nat.not_lt.1 hsize, hl ▸ hleads⟩
      · exact fun h => ⟨l, h.2.2, rfl⟩

/-- What is at the end of a path is what is at the location to which it leads. -/
theorem find_of_reach {p : Path} (h : t.reach p = .ok l) : t.find p = .ok (t.entry? l) := by
  rw [find, trailOf_eq_ok_iff.2 ⟨l, h, rfl⟩, entry?_eq, Node.entryAt?, ← last?_trailAt]
  rfl

theorem find_eq_ok_some_iff {p : Path} : t.find p = .ok (some e) ↔ ∃ l, t.reach p = .ok l ∧ t.entry? l = some e := by
  constructor
  · intro h
    cases htrail : t.trailOf p with
    | error o => simp [find, htrail, Except.map] at h
    | ok trail =>
      obtain ⟨l, hl, -⟩ := trailOf_eq_ok_iff.1 htrail
      exact ⟨l, hl, Except.ok.inj ((find_of_reach hl).symm.trans h)⟩
  · rintro ⟨l, hl, he⟩
    rw [find_of_reach hl, he]

theorem isThere_eq_true_iff {p : Path} : t.isThere p = .ok true ↔ ∃ l e, t.reach p = .ok l ∧ t.entry? l = some e := by
  constructor
  · intro h
    cases hfind : t.find p with
    | error o => cases o <;> simp [isThere, hfind] at h
    | ok e =>
      simp only [isThere, hfind, Except.ok.injEq] at h
      obtain ⟨e, rfl⟩ := Option.isSome_iff_exists.1 h
      obtain ⟨l, hl, he⟩ := find_eq_ok_some_iff.1 hfind
      exact ⟨l, e, hl, he⟩
  · rintro ⟨l, e, hl, he⟩
    rw [isThere, find_of_reach hl, he]
    rfl

theorem isDirectory_iff {p : Path} :
    t.isDirectory p = true ↔ ∃ l, t.reach p = .ok l ∧ t.entry? l = some .directory := by
  rw [← find_eq_ok_some_iff, isDirectory]
  constructor
  · intro h
    split at h
    · assumption
    · cases h
  · intro h
    rw [h]

theorem readText_eq_ok_iff {p : Path} {s : String} :
    t.readText p = .ok s ↔ ∃ l, t.reach p = .ok l ∧ t.entry? l = some (.file (.text s)) := by
  rw [← find_eq_ok_some_iff, readText]
  constructor
  · intro h
    split at h <;> simp_all
  · intro h
    rw [h]

/-! ### Changes -/

theorem ne_directory_of_eq_file {c : Content} (h : t.entry? l = some (.file c)) : t.entry? l ≠ some .directory := by
  simp [h]

theorem ne_directory_of_eq_none (h : t.entry? l = none) : t.entry? l ≠ some .directory := by simp [h]

theorem entry?_put (hparent : t.entry? l = some .directory) (hnone : t.entry? (l ++ [name]) ≠ some .directory)
    (e : Entry) (l' : Location) :
    Tree.entry? (t.put (l ++ [name]) e) l' = if l' = l ++ [name] then some e else t.entry? l' :=
  Node.entryAt?_put hparent hnone e l'

theorem entry?_remove (hnone : t.entry? (l ++ [name]) ≠ some .directory) (l' : Location) :
    Tree.entry? (t.remove (l ++ [name])) l' = if l' = l ++ [name] then none else t.entry? l' :=
  Node.entryAt?_remove hnone l'

/-- The same directories are there, whatever became of the files. -/
structure Edits (t t' : Tree) : Prop where
  here : t'.here = t.here
  directories : ∀ l, t'.entry? l = some .directory ↔ t.entry? l = some .directory

theorem Edits.refl (t : Tree) : t.Edits t := ⟨rfl, fun _ => Iff.rfl⟩

theorem Edits.trans {t'' : Tree} (h : t.Edits t') (h' : t'.Edits t'') : t.Edits t'' :=
  ⟨h'.here.trans h.here, fun l => (h'.directories l).trans (h.directories l)⟩

theorem edits_put (hparent : t.entry? l = some .directory) (hnone : t.entry? (l ++ [name]) ≠ some .directory)
    (c : Content) : t.Edits (t.put (l ++ [name]) (.file c)) := by
  refine ⟨rfl, fun l' => ?_⟩
  rw [entry?_put hparent hnone]
  split
  · next h => simp [h, hnone]
  · rfl

theorem edits_remove (hnone : t.entry? (l ++ [name]) ≠ some .directory) : t.Edits (t.remove (l ++ [name])) := by
  refine ⟨rfl, fun l' => ?_⟩
  rw [entry?_remove hnone]
  split
  · next h => simp [h, hnone]
  · rfl

theorem startAt_congr (h : t'.here = t.here) (start : Path.Start) : t'.startAt start = t.startAt start := by
  cases start <;> first | exact h | rfl

/-- A path goes on leading to its end as long as the directories are there. -/
theorem reach_mono {p : Path} (hhere : t'.here = t.here)
    (hdirs : ∀ l, t.entry? l = some .directory → t'.entry? l = some .directory) (h : t.reach p = .ok l) :
    t'.reach p = .ok l := by
  obtain ⟨hnul, hsize, hleads⟩ := reach_eq_ok_iff.1 h
  exact reach_eq_ok_iff.2 ⟨hnul, hsize, by rw [startAt_congr hhere]; exact hleads.mono hdirs⟩

theorem Edits.reach {p : Path} (h : t.Edits t') (hreach : t.reach p = .ok l) : t'.reach p = .ok l :=
  reach_mono h.here (fun l => (h.directories l).2) hreach

theorem Edits.isDirectory {p : Path} (h : t.Edits t') (hp : t.isDirectory p = true) : t'.isDirectory p = true := by
  obtain ⟨l, hl, hdir⟩ := isDirectory_iff.1 hp
  exact isDirectory_iff.2 ⟨l, h.reach hl, (h.directories l).2 hdir⟩

/-! ### What is in a directory -/

/-- What is there is in a directory. -/
theorem entry?_of_concat (h : t.entry? (l ++ [name]) ≠ none) : t.entry? l = some .directory := by
  obtain ⟨e, he⟩ := Option.ne_none_iff_exists'.1 h
  obtain ⟨m, hm, -⟩ := Option.map_eq_some_iff.1 he
  rw [Node.at?_append] at hm
  obtain ⟨n, hn, hchild⟩ := Option.bind_eq_some_iff.1 hm
  cases n with
  | file c => simp [Node.at?_cons, Node.child?] at hchild
  | directory children => exact entry?_eq_some_directory_iff.2 ⟨children, hn⟩

theorem entry?_onward (hdir : t.entry? l = some .directory) (h : t.entry? (onward l name) = none) :
    onward l name = l ++ [name] := by
  rw [onward] at h ⊢
  split
  · next hup =>
    rw [if_pos hup] at h
    cases l using List.reverseRecOn with
    | nil => simp [hdir] at h
    | append_singleton l last =>
      rw [List.dropLast_concat] at h
      rw [entry?_of_concat (by rw [hdir]; exact Option.some_ne_none _)] at h
      cases h
  · rfl

/-- Where a path leads to nothing, it leads to nothing in a directory. -/
theorem Leads.parent (h : t.Leads l names l') (hstart : t.entry? l ≠ none) (hnone : t.entry? l' = none) :
    ∃ parent name, l' = parent ++ [name] ∧ t.entry? parent = some .directory := by
  induction h with
  | nil => exact absurd hnone hstart
  | @cons l l' name names hdir _ h ih =>
    by_cases hnext : t.entry? (onward l name) = none
    · cases h with
      | nil => exact ⟨l, name, entry?_onward hdir hnext, hdir⟩
      | cons hdir' _ _ =>
        rw [hnext] at hdir'
        cases hdir'
    · exact ih hnext hnone

/-- The place from which paths start is there. -/
def HasPlace (t : Tree) : Prop := t.entry? t.here = some .directory

theorem HasPlace.root (h : t.HasPlace) : t.entry? [] = some .directory := by
  have hroot : ∀ l : Location, t.entry? l = some .directory → t.entry? [] = some .directory := by
    intro l
    induction l using List.reverseRecOn with
    | nil => exact id
    | append_singleton l name ih => exact fun h => ih (entry?_of_concat (by rw [h]; exact Option.some_ne_none _))
  exact hroot _ h

theorem HasPlace.isDirectory_startAt (h : t.HasPlace) (start : Path.Start) :
    t.entry? (t.startAt start) = some .directory := by
  cases start with
  | here => exact h
  | root => exact h.root
  | doubleRoot => exact h.root

theorem HasPlace.entry?_startAt (h : t.HasPlace) (start : Path.Start) : t.entry? (t.startAt start) ≠ none := by
  rw [h.isDirectory_startAt start]
  exact Option.some_ne_none _

/-! ### Writing texts -/

theorem writeText_of_reach {p : Path} (hl : t.reach p = .ok l) (h : t.entry? l ≠ some .directory) (s : String) :
    t.writeText p s = .ok (t.put l (.file (.text s))) := by
  rw [writeText, trailOf_eq_ok_iff.2 ⟨l, hl, rfl⟩]
  simp only [last?_trailAt, location_trailAt]
  split
  · next children hm => exact absurd (entry?_eq_some_directory_iff.2 ⟨children, hm⟩) h
  · rfl

/-- A text is written to a place in a directory at which there is no directory. -/
theorem exists_of_writeText (hplace : t.HasPlace) {p : Path} {s : String} (h : t.writeText p s = .ok t') :
    ∃ parent name, t.reach p = .ok (parent ++ [name]) ∧ t.entry? parent = some .directory ∧
      t.entry? (parent ++ [name]) ≠ some .directory ∧ t' = t.put (parent ++ [name]) (.file (.text s)) := by
  cases htrail : t.trailOf p with
  | error o =>
    rw [writeText, htrail] at h
    cases h
  | ok trail =>
    obtain ⟨l, hl, rfl⟩ := trailOf_eq_ok_iff.1 htrail
    have hne : t.entry? l ≠ some .directory := by
      intro hdir
      obtain ⟨children, hm⟩ := entry?_eq_some_directory_iff.1 hdir
      rw [writeText, htrail] at h
      simp only [last?_trailAt, hm] at h
      cases h
    have hput := (writeText_of_reach hl hne s).symm.trans h
    obtain ⟨parent, name, rfl, hparent⟩ : ∃ parent name, l = parent ++ [name] ∧ t.entry? parent = some .directory := by
      by_cases hnone : t.entry? l = none
      · obtain ⟨-, -, hleads⟩ := reach_eq_ok_iff.1 hl
        exact hleads.parent (hplace.entry?_startAt _) hnone
      · cases l using List.reverseRecOn with
        | nil => exact absurd hplace.root hne
        | append_singleton parent name => exact ⟨parent, name, rfl, entry?_of_concat hnone⟩
    exact ⟨parent, name, hl, hparent, hne, (Except.ok.inj hput).symm⟩

end Tree

end LanguageUsage
