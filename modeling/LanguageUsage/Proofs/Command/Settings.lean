import LanguageUsage.Command.Run
import LanguageUsage.Proofs.Files.Database

/-!
# Settings that are found

Settings that can be read from a file are loaded without a change to the files, and are found again as long as the file
is spared.

* `Path.exists_nul_of_ofString`: a name that cannot be looked up gives a path that cannot be followed;
* `Tree.SettingsAt`: the settings that a run finds in the file at a location;
* `Tree.SettingsAt.load`, `Tree.SettingsAt.checkSettings`: they are loaded;
* `Tree.SettingsAt.spared`: they are found again.
-/

namespace LanguageUsage

/-! ### Names -/

theorem Text.exists_mem_pieces (isSeparator : Char → Bool) {c : Char} {cs : List Char} (hc : c ∈ cs)
    (hsep : isSeparator c = false) : ∃ p ∈ pieces isSeparator cs, c ∈ p := by
  induction cs with
  | nil => cases hc
  | cons d cs ih =>
    rw [pieces]
    rcases List.mem_cons.1 hc with rfl | hc
    · rw [hsep, if_neg Bool.false_ne_true]
      split <;> exact ⟨_, List.mem_cons_self, List.mem_cons_self⟩
    · obtain ⟨p, hp, hcp⟩ := ih hc
      split
      · exact ⟨p, List.mem_cons_of_mem _ hp, hcp⟩
      · split
        · next hnil => exact absurd hnil (pieces_ne_nil _ _)
        · next q ps hpieces =>
          rw [hpieces] at hp
          rcases List.mem_cons.1 hp with rfl | hp
          · exact ⟨_, List.mem_cons_self, List.mem_cons_of_mem _ hcp⟩
          · exact ⟨p, List.mem_cons_of_mem _ hp, hcp⟩

/-- A name that holds the character that no path can hold gives a path with it. -/
theorem Path.exists_nul_of_ofString {s : String} (h : '\x00' ∈ s.toList) :
    ∃ name ∈ (ofString s).names, '\x00' ∈ name.toList := by
  obtain ⟨p, hp, hnul⟩ := Text.exists_mem_pieces (· = '/') h rfl
  have hname : isName p = true := by
    rw [isName, Bool.and_eq_true, bne_iff_ne, bne_iff_ne]
    refine ⟨List.ne_nil_of_mem hnul, ?_⟩
    rintro rfl
    exact absurd (List.mem_singleton.1 hnul) (by decide)
  exact ⟨.ofList p, List.mem_map.2 ⟨p, List.mem_filter.2 ⟨hp, hname⟩, rfl⟩, by rwa [String.toList_ofList]⟩

/-! ### Settings -/

theorem bind_eq_ok_iff {ε α β : Type} {x : Except ε α} {f : α → Except ε β} {b : β} :
    x >>= f = .ok b ↔ ∃ a, x = .ok a ∧ f a = .ok b := by
  cases x with
  | error e => exact ⟨nofun, fun ⟨_, h, _⟩ => nomatch h⟩
  | ok a => exact ⟨fun h => ⟨a, rfl, h⟩, fun ⟨_, rfl, h⟩ => h⟩

namespace Tree

variable {t t' : Tree} {e : Environment} {asked : Option String} {l : Location} {s : Settings}

/-- The settings that a run finds in the file at a location, before the variables are looked at. -/
def SettingsAt (t : Tree) (e : Environment) (asked : Option String) (l : Location) (s : Settings) : Prop :=
  ∃ file directory, Settings.fileAndDirectory e (asked.map Path.ofString) = .ok (file, directory) ∧
    t.reach file = .ok l ∧ Settings.readFrom t file directory = .ok s

/-- What it means that settings are read. -/
theorem readFrom_eq_ok_iff {file directory : Path} (hl : t.reach file = .ok l) :
    Settings.readFrom t file directory = .ok s ↔ ∃ text v, t.entry? l = some (.file (.text text)) ∧
      Document.read text = .ok v ∧ Settings.ofDocument v directory = .ok s := by
  constructor
  · intro h
    obtain ⟨text, htext, h⟩ := bind_eq_ok_iff.1 h
    obtain ⟨v, hv, h⟩ := bind_eq_ok_iff.1 h
    obtain ⟨l', hl', hentry⟩ := readText_eq_ok_iff.1 htext
    obtain rfl := Except.ok.inj (hl.symm.trans hl')
    exact ⟨text, v, hentry, hv, h⟩
  · rintro ⟨text, v, hentry, hv, h⟩
    exact bind_eq_ok_iff.2 ⟨text, readText_eq_ok_iff.2 ⟨l, hl, hentry⟩, bind_eq_ok_iff.2 ⟨v, hv, h⟩⟩

/-- There is a text in which there is something. -/
theorem SettingsAt.exists_text (h : t.SettingsAt e asked l s) :
    ∃ text, t.entry? l = some (.file (.text text)) ∧ text ≠ "" := by
  obtain ⟨file, directory, -, hl, hread⟩ := h
  obtain ⟨text, v, hentry, hv, -⟩ := (readFrom_eq_ok_iff hl).1 hread
  refine ⟨text, hentry, ?_⟩
  rintro rfl
  have hempty : Document.read "" = .error .malformedDocument := by decide +kernel
  rw [hempty] at hv
  cases hv

/-- Settings whose file is spared are found again. -/
theorem SettingsAt.spared (h : t.SettingsAt e asked l s) (hspares : t.Spares t' l) : t'.SettingsAt e asked l s := by
  obtain ⟨file, directory, hfile, hl, hread⟩ := h
  obtain ⟨text, v, hentry, hv, hs⟩ := (readFrom_eq_ok_iff hl).1 hread
  have hl' := hspares.reach hl
  exact ⟨file, directory, hfile, hl', (readFrom_eq_ok_iff hl').2 ⟨text, v, hspares.entry.trans hentry, hv, hs⟩⟩

/-- Settings that can be read are loaded. -/
theorem load_of_readFrom {asked : Option Path} {file directory : Path}
    (hfile : Settings.fileAndDirectory e asked = .ok (file, directory)) (hl : t.reach file = .ok l)
    (hread : Settings.readFrom t file directory = .ok s) : Settings.load t e asked = (t, .ok (s.overridden e)) := by
  obtain ⟨text, -, hentry, -⟩ := (readFrom_eq_ok_iff hl).1 hread
  have hthere : t.isThere file = .ok true := isThere_eq_true_iff.2 ⟨l, _, hl, hentry⟩
  simp only [Settings.load, hfile, Settings.readOrCreate, hthere, hread]
  rfl

/-- Settings that are found are loaded. -/
theorem SettingsAt.load (h : t.SettingsAt e asked l s) :
    Settings.load t e (asked.map Path.ofString) = (t, .ok (s.overridden e)) := by
  obtain ⟨file, directory, hfile, hl, hread⟩ := h
  exact load_of_readFrom hfile hl hread

/-- A file with settings that are found can be asked for. -/
theorem SettingsAt.checkSettings (h : t.SettingsAt e asked l s) : Run.checkSettings t asked = .finished := by
  cases asked with
  | none => rfl
  | some name =>
    obtain ⟨text, hentry, -⟩ := h.exists_text
    obtain ⟨file, directory, hfile, hl, -⟩ := h
    obtain ⟨rfl, -⟩ : Path.ofString name = file ∧ _ := Prod.mk.inj (Except.ok.inj hfile)
    have hnul : name.toList.contains '\x00' = false := by
      rw [← Bool.not_eq_true, List.contains_iff_mem]
      intro hmem
      obtain ⟨piece, hpiece, hnul⟩ := Path.exists_nul_of_ofString hmem
      obtain ⟨hnone, -⟩ := reach_eq_ok_iff.1 hl
      exact absurd hnul (by simpa using List.any_eq_false.1 hnone piece hpiece)
    have hdirectory : Run.namesDirectory t name = false := by
      rw [Run.namesDirectory, isDirectory, find_eq_ok_some_iff.2 ⟨l, hl, hentry⟩]
      exact Bool.and_false _
    rw [Run.checkSettings, hnul, hdirectory]
    rfl

end Tree

end LanguageUsage
