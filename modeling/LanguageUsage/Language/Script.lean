import LanguageUsage.Text.Block

/-!
# Scripts

The writing systems by which a language is recognised, each with the ranges of its characters and
the tag of the language that it stands for. The order of `Script.all` settles ties. No character
lies in two scripts.
-/

namespace LanguageUsage

/-- A writing system. -/
inductive Script
  | kana
  | han
  | hangul
  | cyrillic
  | greek
  | arabic
  | hebrew
  | thai
  | devanagari
  | bengali
  | tamil
  | telugu
  | latin
  deriving DecidableEq, Repr

namespace Script

/-- All scripts, in the order in which ties are settled. -/
def all : List Script :=
  [.kana, .han, .hangul, .cyrillic, .greek, .arabic, .hebrew, .thai, .devanagari, .bengali, .tamil,
    .telugu, .latin]

/-- The tag of the language for which the script stands. -/
def tag : Script → String
  | .kana => "ja"
  | .han => "zh"
  | .hangul => "ko"
  | .cyrillic => "ru"
  | .greek => "el"
  | .arabic => "ar"
  | .hebrew => "he"
  | .thai => "th"
  | .devanagari => "hi"
  | .bengali => "bn"
  | .tamil => "ta"
  | .telugu => "te"
  | .latin => "en"

/-- The ranges of the script's characters. -/
def blocks : Script → List Text.Block
  | .kana => [⟨0x3040, 0x30FF⟩]
  | .han => [⟨0x4E00, 0x9FFF⟩, ⟨0x3400, 0x4DBF⟩]
  | .hangul => [⟨0xAC00, 0xD7AF⟩, ⟨0x1100, 0x11FF⟩]
  | .cyrillic => [⟨0x0400, 0x04FF⟩]
  | .greek => [⟨0x0370, 0x03FF⟩]
  | .arabic => [⟨0x0600, 0x06FF⟩]
  | .hebrew => [⟨0x0590, 0x05FF⟩]
  | .thai => [⟨0x0E00, 0x0E7F⟩]
  | .devanagari => [⟨0x0900, 0x097F⟩]
  | .bengali => [⟨0x0980, 0x09FF⟩]
  | .tamil => [⟨0x0B80, 0x0BFF⟩]
  | .telugu => [⟨0x0C00, 0x0C7F⟩]
  | .latin => [⟨0x41, 0x5A⟩, ⟨0x61, 0x7A⟩, ⟨0xC0, 0x024F⟩]

/-- The character belongs to the script. -/
def holds (s : Script) (c : Char) : Bool := Text.Block.anyHolds s.blocks c

theorem mem_all (s : Script) : s ∈ all := by cases s <;> decide

theorem tag_injective {s t : Script} (h : s.tag = t.tag) : s = t := by
  cases s <;> cases t <;> first | rfl | (revert h; decide)

end Script

end LanguageUsage
