import LanguageUsage.Proofs.Document.Number
import LanguageUsage.Proofs.Document.Text

/-!
# Documents are read back

A value that is written as a document is read back from it, unless lists and objects are too deep inside each other or a
whole number has too many digits.

* `Document.Fits`: the values that are read back;
* `Value.Fields.ofList_of_nodup`: fields of different names stay as they are;
* `Document.Reads`, `Document.reads_of_fits`: a value in front of other text;
* `Document.read_write`: a whole document.
-/

namespace LanguageUsage

/-- Fields of different names stay as they are when they are written one after another. -/
theorem Value.Fields.ofList_of_nodup {fields : Value.Fields} (h : (fields.map Prod.fst).Nodup) : ofList fields = fields := by
  have hfold : ∀ before : Value.Fields, ((before ++ fields).map Prod.fst).Nodup →
      fields.foldl (fun fs f => fs.set f.1 f.2) before = before ++ fields := by
    clear h
    induction fields with
    | nil => exact fun before _ => (List.append_nil before).symm
    | cons f fields ih =>
      intro before hbefore
      have hnew : before.any (·.1 == f.1) = false := by
        rw [List.any_eq_false]
        intro g hg heq
        rw [List.map_append, List.nodup_append] at hbefore
        exact hbefore.2.2 _ (List.mem_map_of_mem hg) _ (List.mem_map_of_mem List.mem_cons_self) (beq_iff_eq.1 heq)
      have hset : before.set f.1 f.2 = before ++ [f] := by
        rw [set, hnew]
        rfl
      rw [List.foldl_cons, hset, ih, List.append_assoc, List.singleton_append]
      rwa [List.append_assoc, List.singleton_append]
  exact hfold [] h

namespace Document

variable {v : Value} {vs : List Value} {fs : List (String × Value)} {key : String} {c : Char} {cs rest : List Char}
  {depth room fuel : Nat}

/-- The values that are read back: with no more lists and objects inside each other than there is room for, no more
digits of whole numbers than are read, and fields of different names in each object. -/
inductive Fits : Nat → Value → Prop
  | null {room : Nat} : Fits room .null
  | bool {room : Nat} (b : Bool) : Fits room (.bool b)
  | number {room : Nat} {x : Number} (hx : FitsDigits x) : Fits room (.number x)
  | text {room : Nat} (s : String) : Fits room (.text s)
  | list {room : Nat} {vs : List Value} (h : ∀ v ∈ vs, Fits room v) : Fits (room + 1) (.list vs)
  | object {room : Nat} {fs : List (String × Value)} (hkeys : (fs.map Prod.fst).Nodup) (h : ∀ f ∈ fs, Fits room f.2) :
      Fits (room + 1) (.object fs)

/-! ### Blanks -/

theorem skip_cons (h : isGap c = false) (cs : List Char) : skip (c :: cs) = c :: cs :=
  List.dropWhile_cons_of_neg (by simp [h])

theorem skip_newline (depth : Nat) (cs : List Char) : skip (newline depth ++ cs) = skip cs := by
  have hgap : ∀ c ∈ newline depth, isGap c = true := by
    intro c hc
    rcases List.mem_cons.1 hc with rfl | hc
    · rfl
    · exact List.eq_of_mem_replicate hc ▸ rfl
  exact List.dropWhile_append_of_pos hgap

theorem newline_length_pos (depth : Nat) : 0 < (newline depth).length := Nat.zero_lt_succ _

/-- What a value starts with. -/
theorem exists_chars_eq_cons (depth : Nat) (v : Value) :
    ∃ c cs, chars depth v = c :: cs ∧ isGap c = false ∧ c ≠ ']' := by
  match v with
  | .null =>
    rw [chars]
    exact ⟨'n', _, rfl, rfl, by decide⟩
  | .bool true =>
    rw [chars]
    exact ⟨'t', _, rfl, rfl, by decide⟩
  | .bool false =>
    rw [chars]
    exact ⟨'f', _, rfl, rfl, by decide⟩
  | .number x =>
    obtain ⟨c, cs, hcons, hc⟩ := exists_number_eq_cons x
    rw [chars]
    refine ⟨c, cs, hcons, ?_, ne_of_startsNumber hc rfl⟩
    simp only [isGap, Bool.or_eq_false_iff, beq_eq_false_iff_ne]
    exact ⟨⟨⟨ne_of_startsNumber hc rfl, ne_of_startsNumber hc rfl⟩, ne_of_startsNumber hc rfl⟩, ne_of_startsNumber hc rfl⟩
  | .text s =>
    rw [chars]
    exact ⟨'"', _, rfl, rfl, by decide⟩
  | .list [] =>
    rw [chars]
    exact ⟨'[', _, rfl, rfl, by decide⟩
  | .list (v :: vs) =>
    rw [chars]
    exact ⟨'[', _, rfl, rfl, by decide⟩
  | .object [] =>
    rw [chars]
    exact ⟨'\x7b', _, rfl, rfl, by decide⟩
  | .object ((k, v) :: fs) =>
    rw [chars]
    exact ⟨'\x7b', _, rfl, rfl, by decide⟩

/-- The blanks in front of a value. -/
theorem skip_chars (depth : Nat) (v : Value) (rest : List Char) : skip (chars depth v ++ rest) = chars depth v ++ rest := by
  obtain ⟨c, cs, hcons, hgap, -⟩ := exists_chars_eq_cons depth v
  rw [hcons]
  exact skip_cons hgap _

theorem ends_cons (h : c.isDigit = false ∧ c ≠ '.' ∧ c ≠ 'e' ∧ c ≠ 'E') (cs : List Char) : Ends (c :: cs) := fun _ hd =>
  Option.some.inj hd ▸ h

theorem ends_moreItems (depth depth' : Nat) (vs : List Value) (cs : List Char) :
    Ends (moreItems depth vs ++ (newline depth' ++ cs)) := by
  cases vs with
  | nil => exact ends_cons (by decide) _
  | cons v vs => 
    rw [moreItems]
    exact ends_cons (by decide) _

theorem ends_moreFields (depth depth' : Nat) (fs : List (String × Value)) (cs : List Char) :
    Ends (moreFields depth fs ++ (newline depth' ++ cs)) := by
  cases fs with
  | nil => exact ends_cons (by decide) _
  | cons f fs =>
    rw [moreFields]
    exact ends_cons (by decide) _

theorem skip_blank (cs : List Char) : skip (' ' :: cs) = skip cs := rfl

/-! ### Values -/

/-- A value is read back in front of any text with which no number goes on. Its length is as much fuel as it takes. -/
def Reads (depth : Nat) (v : Value) : Prop := ∀ fuel rest, (chars depth v).length ≤ fuel + 1 → Ends rest →
  readValue (fuel + 1) depth (chars depth v ++ rest) = .ok (v, rest)

theorem reads_number {x : Number} (hx : FitsDigits x) (depth : Nat) : Reads depth (.number x) := by
  intro fuel rest _ hends
  have hread := readNumber_number hx hends
  obtain ⟨c, cs, hcons, hc⟩ := exists_number_eq_cons x
  rw [hcons, List.cons_append] at hread
  rw [chars, hcons, List.cons_append]
  have hne : ∀ {d ds}, c :: (cs ++ rest) = d :: ds → startsNumber d = false → False := fun heq hd =>
    ne_of_startsNumber hc hd (List.cons.inj heq).1
  rw [readValue, hread]
  · exact fun _ heq => hne heq rfl
  · exact fun _ heq => hne heq rfl
  · exact fun _ heq => hne heq rfl
  · exact fun _ heq => hne heq rfl
  · exact fun _ heq => hne heq rfl
  · exact fun _ heq => hne heq rfl

theorem string_append (s : String) (rest : List Char) :
    string s ++ rest = '"' :: (s.toList.flatMap escape ++ '"' :: rest) := by
  simp [string]

theorem skip_string (s : String) (rest : List Char) : skip (string s ++ rest) = string s ++ rest := by
  rw [string_append]
  exact skip_cons rfl _

theorem reads_text (s : String) (depth : Nat) : Reads depth (.text s) := by
  intro fuel rest _ _
  rw [chars, string_append, readValue, readString_escape]
  simp only [String.ofList_toList]

/-- The items of a list are read back, each of them in front of the others. -/
theorem readItems_chars (depth' fuel : Nat) (rest : List Char) (h : ∀ w ∈ v :: vs, Reads depth w)
    (hfuel : (chars depth v ++ moreItems depth vs).length ≤ fuel + 1) :
    readItems (fuel + 2) depth (chars depth v ++ (moreItems depth vs ++ (newline depth' ++ ']' :: rest))) =
      .ok (v :: vs, rest) := by
  induction vs generalizing v fuel with
  | nil =>
    have hread := h v List.mem_cons_self fuel (newline depth' ++ ']' :: rest)
      (by rwa [moreItems, List.append_nil] at hfuel) (ends_moreItems depth depth' [] _)
    rw [readItems, moreItems, List.nil_append, hread]
    simp only [skip_newline, skip_cons (c := ']') rfl]
  | cons w ws ih =>
    rw [moreItems, List.length_append] at hfuel
    simp only [List.append_assoc, List.cons_append, List.length_cons] at hfuel
    rw [List.length_append] at hfuel
    have hpos := newline_length_pos depth
    obtain ⟨fuel, rfl⟩ : ∃ f, fuel = f + 1 := ⟨fuel - 1, by omega⟩
    have hread := h v List.mem_cons_self (fuel + 1) (moreItems depth (w :: ws) ++ (newline depth' ++ ']' :: rest))
      (by omega) (ends_moreItems depth depth' (w :: ws) _)
    have hmore := ih fuel (v := w) (fun u hu => h u (List.mem_cons_of_mem _ hu)) (by omega)
    rw [readItems, hread, moreItems]
    simp only [List.cons_append, List.append_assoc, skip_cons (c := ',') rfl, skip_newline, skip_chars, hmore]

/-- The fields of an object are read back. -/
theorem readFields_chars (depth' fuel : Nat) (rest : List Char) (h : ∀ f ∈ (key, v) :: fs, Reads depth f.2)
    (hfuel : (chars depth v ++ moreFields depth fs).length ≤ fuel + 1) :
    readFields (fuel + 2) depth (string key ++ ':' :: ' ' ::
        (chars depth v ++ (moreFields depth fs ++ (newline depth' ++ '\x7d' :: rest)))) =
      .ok ((key, v) :: fs, rest) := by
  induction fs generalizing key v fuel with
  | nil =>
    have hread := h (key, v) List.mem_cons_self fuel (newline depth' ++ '\x7d' :: rest)
      (by rwa [moreFields, List.append_nil] at hfuel) (ends_moreFields depth depth' [] _)
    rw [string_append, readFields, readString_escape, moreFields, List.nil_append]
    simp only [skip_cons (c := ':') rfl, skip_blank, skip_chars, hread, skip_newline, skip_cons (c := '\x7d') rfl,
      String.ofList_toList]
  | cons f fs ih =>
    obtain ⟨key', w⟩ := f
    rw [moreFields, List.length_append] at hfuel
    simp only [List.append_assoc, List.cons_append, List.nil_append, List.length_cons, List.length_append] at hfuel
    obtain ⟨fuel, rfl⟩ : ∃ f, fuel = f + 1 := ⟨fuel - 1, by omega⟩
    have hv : Reads depth v := h (key, v) List.mem_cons_self
    have hread := hv (fuel + 1) (moreFields depth ((key', w) :: fs) ++ (newline depth' ++ '\x7d' :: rest)) (by omega)
      (ends_moreFields depth depth' ((key', w) :: fs) _)
    have hmore := ih fuel (fun g hg => h g (List.mem_cons_of_mem _ hg))
      (by rw [List.length_append]; omega)
    rw [string_append, readFields, readString_escape]
    simp only [skip_cons (c := ':') rfl, skip_blank, skip_chars, hread]
    simp only [moreFields, List.cons_append, List.nil_append, List.append_assoc, skip_cons (c := ',') rfl, skip_newline,
      skip_string, hmore, String.ofList_toList]

theorem reads_list (hdepth : depth < maxNesting) (h : ∀ v ∈ vs, Reads (depth + 1) v) : Reads depth (.list vs) := by
  intro fuel rest hfuel _
  cases vs with
  | nil =>
    rw [chars]
    show readValue (fuel + 1) depth ('[' :: ']' :: rest) = _
    rw [readValue, if_neg (Nat.not_le.2 hdepth), skip_cons rfl]
    rfl
  | cons v vs =>
    rw [chars] at hfuel ⊢
    simp only [List.cons_append, List.append_assoc, List.length_cons, List.length_append, List.length_nil] at hfuel
    have hpos := newline_length_pos (depth + 1)
    obtain ⟨fuel, rfl⟩ : ∃ f, fuel = f + 2 := ⟨fuel - 2, by omega⟩
    have hitems := readItems_chars depth fuel rest h (by rw [List.length_append]; omega)
    obtain ⟨c, cs, hcons, hgap, hclose⟩ := exists_chars_eq_cons (depth + 1) v
    rw [hcons, List.cons_append] at hitems
    simp only [List.cons_append, List.append_assoc, List.nil_append]
    rw [readValue, if_neg (Nat.not_le.2 hdepth), skip_newline, hcons, List.cons_append, skip_cons hgap]
    split
    · next heq => exact absurd (List.cons.inj heq).1 hclose
    · rw [hitems]

theorem reads_object (hdepth : depth < maxNesting) (hkeys : (fs.map Prod.fst).Nodup)
    (h : ∀ f ∈ fs, Reads (depth + 1) f.2) : Reads depth (.object fs) := by
  intro fuel rest hfuel _
  cases fs with
  | nil =>
    rw [chars]
    show readValue (fuel + 1) depth ('\x7b' :: '\x7d' :: rest) = _
    rw [readValue, if_neg (Nat.not_le.2 hdepth), skip_cons rfl]
    rfl
  | cons f fs =>
    obtain ⟨key, v⟩ := f
    rw [chars] at hfuel ⊢
    simp only [List.cons_append, List.append_assoc, List.length_cons, List.length_append, List.length_nil] at hfuel
    have hpos := newline_length_pos (depth + 1)
    obtain ⟨fuel, rfl⟩ : ∃ f, fuel = f + 2 := ⟨fuel - 2, by omega⟩
    have hfields := readFields_chars depth fuel rest h (by rw [List.length_append]; omega)
    rw [string_append] at hfields
    simp only [List.cons_append, List.append_assoc, List.nil_append]
    rw [readValue, if_neg (Nat.not_le.2 hdepth), skip_newline, string_append, skip_cons rfl]
    split
    · next heq => exact absurd (List.cons.inj heq).1 (by decide)
    · rw [hfields]
      simp only [Value.Fields.ofList_of_nodup hkeys]

/-- **A value that fits is read back**, wherever it stands. -/
theorem reads_of_fits (h : Fits room v) : ∀ depth, depth + room ≤ maxNesting → Reads depth v := by
  induction h with
  | null =>
    intro depth _ fuel rest _ _
    simp only [chars, List.cons_append, List.nil_append, readValue]
  | bool b =>
    intro depth _ fuel rest _ _
    cases b <;> simp only [chars, List.cons_append, List.nil_append, readValue]
  | number hx => exact fun depth _ => reads_number hx depth
  | text s => exact fun depth _ => reads_text s depth
  | list _ ih => exact fun depth hdepth => reads_list (by omega) fun v hv => ih v hv (depth + 1) (by omega)
  | object hkeys _ ih =>
    exact fun depth hdepth => reads_object (by omega) hkeys fun f hf => ih f hf (depth + 1) (by omega)

/-- **A document is read back.** -/
theorem read_write (h : Fits maxNesting v) : read (write v) = .ok v := by
  have hread := reads_of_fits h 0 (by omega) (2 * (chars 0 v).length + 1) [] (by omega) nofun
  have hskip := skip_chars 0 v []
  rw [List.append_nil] at hread hskip
  rw [read, write, String.length_ofList, String.toList_ofList, hskip, hread]
  rfl

end Document

end LanguageUsage
