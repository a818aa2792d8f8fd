import LanguageUsage.Text.Block

/-!
# Blank text

A blank character is white space, or one of the four separators `U+001C` to `U+001F` that old
record formats use as such. Characters that merely have no width, such as `U+200B`, are not blank.

* `isBlankChar` is the character class;
* `isBlank` says that a text holds nothing else, `trimChars` takes blanks off both ends.
-/

namespace LanguageUsage.Text

/-- The ranges of the blank characters. -/
def blankBlocks : List Block :=
  [⟨0x09, 0x0D⟩, ⟨0x1C, 0x20⟩, ⟨0x85, 0x85⟩, ⟨0xA0, 0xA0⟩, ⟨0x1680, 0x1680⟩, ⟨0x2000, 0x200A⟩,
    ⟨0x2028, 0x2029⟩, ⟨0x202F, 0x202F⟩, ⟨0x205F, 0x205F⟩, ⟨0x3000, 0x3000⟩]

/-- White space and the four information separators. -/
def isBlankChar (c : Char) : Bool := Block.anyHolds blankBlocks c

/-- Nothing but blank characters; the empty text is blank. -/
def isBlank (s : String) : Bool := s.toList.all isBlankChar

/-- The characters between the first and the last that are not blank. -/
def trimChars (cs : List Char) : List Char :=
  ((cs.dropWhile isBlankChar).reverse.dropWhile isBlankChar).reverse

end LanguageUsage.Text
