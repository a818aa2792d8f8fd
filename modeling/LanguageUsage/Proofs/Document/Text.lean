import LanguageUsage.Document.Reader
import LanguageUsage.Document.Writer
import Mathlib.Tactic.Common

/-!
# Texts are read back

Every character of a text is written as itself, by a letter after a backslash, by its code, or as two halves of one, and
is read back from each of these. Halves that belong together are the only ones there are, as no character has the code of
a half.

* `Document.unit?_hexDigits`: four hexadecimal digits;
* `Document.ReadsAs`: what is read as a character, whatever stands around it;
* `Document.exists_readsAs_escape`: every character, as it is written;
* `Document.readString_escape`: a text.
-/

namespace LanguageUsage.Document

variable {c : Char} {n : Nat} {text rest : List Char} {ps qs : List Piece}

/-! ### Codes -/

theorem hexDigit?_digitChar : ∀ d < 16, hexDigit? (Nat.digitChar d) = some d := by decide

theorem toDigits_sixteen (hn : 16 ≤ n) : Nat.toDigits 16 n = Nat.toDigits 16 (n / 16) ++ [Nat.digitChar (n % 16)] :=
  Nat.toDigits_of_base_le (by decide) hn

/-- A code of sixteen bits, digit by digit. -/
theorem hexDigits_four (hn : n < 0x10000) : Text.hexDigits 4 n =
    [Nat.digitChar (n / 16 / 16 / 16), Nat.digitChar (n / 16 / 16 % 16), Nat.digitChar (n / 16 % 16),
      Nat.digitChar (n % 16)] := by
  by_cases h₁ : n < 16
  · have hdigits : Nat.toDigits 16 n = [Nat.digitChar (n % 16)] := by
      rw [Nat.toDigits_of_lt_base h₁, Nat.mod_eq_of_lt h₁]
    rw [Text.hexDigits, hdigits, Nat.div_eq_of_lt h₁]
    rfl
  · by_cases h₂ : n / 16 < 16
    · have hdigits : Nat.toDigits 16 n = [Nat.digitChar (n / 16 % 16), Nat.digitChar (n % 16)] := by
        rw [toDigits_sixteen (by omega), Nat.toDigits_of_lt_base h₂, Nat.mod_eq_of_lt h₂]
        rfl
      rw [Text.hexDigits, hdigits, Nat.div_eq_of_lt h₂]
      rfl
    · by_cases h₃ : n / 16 / 16 < 16
      · have hdigits : Nat.toDigits 16 n =
            [Nat.digitChar (n / 16 / 16 % 16), Nat.digitChar (n / 16 % 16), Nat.digitChar (n % 16)] := by
          rw [toDigits_sixteen (by omega), toDigits_sixteen (by omega), Nat.toDigits_of_lt_base h₃, Nat.mod_eq_of_lt h₃]
          rfl
        rw [Text.hexDigits, hdigits, Nat.div_eq_of_lt h₃]
        rfl
      · have h₄ : n / 16 / 16 / 16 < 16 := by omega
        rw [Text.hexDigits, toDigits_sixteen (by omega), toDigits_sixteen (by omega), toDigits_sixteen (by omega),
          Nat.toDigits_of_lt_base h₄]
        rfl

/-- Four hexadecimal digits are read back. -/
theorem unit?_digits (hn : n < 0x10000) : unit? (Nat.digitChar (n / 16 / 16 / 16)) (Nat.digitChar (n / 16 / 16 % 16))
    (Nat.digitChar (n / 16 % 16)) (Nat.digitChar (n % 16)) = some n := by
  have hvalue : ((n / 16 / 16 / 16 * 16 + n / 16 / 16 % 16) * 16 + n / 16 % 16) * 16 + n % 16 = n := by omega
  rw [unit?, hexDigit?_digitChar _ (by omega), hexDigit?_digitChar _ (by omega), hexDigit?_digitChar _ (by omega),
    hexDigit?_digitChar _ (by omega)]
  exact congrArg some hvalue

theorem readPieces_unitEscape (hn : n < 0x10000) (rest : List Char) :
    readPieces (unitEscape n ++ rest) = (readPieces rest).map fun r => (.code n :: r.1, r.2) := by
  rw [unitEscape, hexDigits_four hn]
  simp only [List.cons_append, List.nil_append]
  rw [readPieces, unit?_digits hn]
  cases readPieces rest <;> rfl

/-! ### Characters -/

theorem joinPieces_code (h : isHighHalf n = false) (ps : List Piece) :
    joinPieces (.code n :: ps) = charOf n :: joinPieces ps := by
  match ps with
  | [] => rfl
  | .plain c :: ps => rfl
  | .code m :: ps =>
    rw [joinPieces, h, Bool.false_and]
    rfl

theorem isHighHalf_toNat (c : Char) : isHighHalf c.toNat = false := by
  have hvalid : c.toNat < 0xD800 ∨ 0xDFFF < c.toNat ∧ c.toNat < 0x110000 := c.valid
  rw [isHighHalf, Bool.and_eq_false_iff, decide_eq_false_iff_not, decide_eq_false_iff_not]
  omega

theorem charOf_toNat (c : Char) : charOf c.toNat = c := by
  have hvalid : c.toNat.isValidChar := c.valid
  rw [charOf, if_pos hvalid, Char.ofNat_toNat]

/-- What is read as a character, whatever stands around it. -/
structure ReadsAs (text : List Char) (c : Char) (ps : List Piece) : Prop where
  read (rest : List Char) : readPieces (text ++ rest) = (readPieces rest).map fun r => (ps ++ r.1, r.2)
  join (qs : List Piece) : joinPieces (ps ++ qs) = c :: joinPieces qs

theorem readsAs_letter {l : Char} (hl : l ≠ 'u') (h : escaped? l = some c) : ReadsAs ['\\', l] c [.plain c] where
  read rest := by
    show readPieces ('\\' :: l :: rest) = _
    rw [readPieces, h]
    · cases readPieces rest <;> rfl
    · intro _ _ _ _ _ hu
      exact absurd hu hl
  join _ := rfl

theorem readsAs_itself (hquote : c ≠ '"') (hbackslash : c ≠ '\\') (hblank : ' ' ≤ c) : ReadsAs [c] c [.plain c] where
  read rest := by
    show readPieces (c :: rest) = _
    rw [readPieces, if_neg (not_or.2 ⟨Char.not_lt.2 hblank, hbackslash⟩)]
    · cases readPieces rest <;> rfl
    · exact hquote
    · intro _ _ _ _ _ h
      exact absurd h hbackslash
    · intro _ _ h
      exact absurd h hbackslash
  join _ := rfl

theorem readsAs_code (hc : c.toNat < 0x10000) : ReadsAs (unitEscape c.toNat) c [.code c.toNat] where
  read rest := readPieces_unitEscape hc rest
  join qs := by
    rw [List.singleton_append, joinPieces_code (isHighHalf_toNat c), charOf_toNat]

/-- The two halves of a character beyond sixteen bits. -/
theorem readsAs_halves (hc : 0x10000 ≤ c.toNat) :
    ReadsAs (unitEscape (0xD800 + (c.toNat - 0x10000) / 0x400) ++ unitEscape (0xDC00 + (c.toNat - 0x10000) % 0x400)) c
      [.code (0xD800 + (c.toNat - 0x10000) / 0x400), .code (0xDC00 + (c.toNat - 0x10000) % 0x400)] := by
  have hvalid : c.toNat < 0xD800 ∨ 0xDFFF < c.toNat ∧ c.toNat < 0x110000 := c.valid
  generalize hhigh : 0xD800 + (c.toNat - 0x10000) / 0x400 = high
  generalize hlow : 0xDC00 + (c.toNat - 0x10000) % 0x400 = low
  have hcode : 0x10000 + (high - 0xD800) * 0x400 + (low - 0xDC00) = c.toNat := by omega
  have hhalves : (isHighHalf high && isLowHalf low) = true := by
    simp only [isHighHalf, isLowHalf, Bool.and_eq_true, decide_eq_true_iff]
    omega
  constructor
  · intro rest
    rw [List.append_assoc, readPieces_unitEscape (by omega), readPieces_unitEscape (by omega)]
    cases readPieces rest <;> rfl
  · intro qs
    show joinPieces (.code high :: .code low :: qs) = _
    rw [joinPieces, if_pos hhalves, joinHalves, hcode, Char.ofNat_toNat]

/-- **Every character reads back.** -/
theorem exists_readsAs_escape (c : Char) : ∃ ps, ReadsAs (escape c) c ps := by
  rw [escape]
  split
  · next h => obtain rfl | rfl := h <;> exact ⟨_, readsAs_letter (by decide) rfl⟩
  next hplain =>
  split
  · next h => exact ⟨_, readsAs_letter (by decide) (h ▸ rfl)⟩
  split
  · next h => exact ⟨_, readsAs_letter (by decide) (h ▸ rfl)⟩
  split
  · next h => exact ⟨_, readsAs_letter (by decide) (h ▸ rfl)⟩
  split
  · next h => exact ⟨_, readsAs_letter (by decide) (h ▸ rfl)⟩
  split
  · next h => exact ⟨_, readsAs_letter (by decide) (h ▸ rfl)⟩
  split
  · next h => exact ⟨_, readsAs_itself (fun hc => hplain (.inl hc)) (fun hc => hplain (.inr hc)) h.1⟩
  split
  · next h => exact ⟨_, readsAs_code h⟩
  · next h => exact ⟨_, readsAs_halves (Nat.not_lt.1 h)⟩

/-- **A text reads back** up to the closing quote. -/
theorem readString_escape (cs rest : List Char) :
    readString (cs.flatMap escape ++ '"' :: rest) = some (cs, rest) := by
  obtain ⟨ps, hread, hjoin⟩ : ∃ ps, readPieces (cs.flatMap escape ++ '"' :: rest) = some (ps, rest) ∧ joinPieces ps = cs := by
    induction cs with
    | nil => exact ⟨[], rfl, rfl⟩
    | cons c cs ih =>
      obtain ⟨ps, hread, hjoin⟩ := ih
      obtain ⟨qs, hqs⟩ := exists_readsAs_escape c
      refine ⟨qs ++ ps, ?_, ?_⟩
      · rw [List.flatMap_cons, List.append_assoc, hqs.read, hread]
        rfl
      · rw [hqs.join, hjoin]
  rw [readString, hread, Option.map_some, hjoin]

end LanguageUsage.Document
