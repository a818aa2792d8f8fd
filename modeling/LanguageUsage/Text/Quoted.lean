import LanguageUsage.Text.Printable

/-!
# Quoted text

A text inside quotes, as messages show it. The quotes are single, or double if the text holds a
single quote and no double one. The quote itself and the backslash are escaped, line breaks and tabs
have letters of their own, and every other character that is not printable is given by its code in
two, four or eight hexadecimal digits.
-/

namespace LanguageUsage.Text

/-- A number in lower-case hexadecimal, with zeros in front up to the given length. -/
def hexDigits (length n : Nat) : List Char :=
  let digits := Nat.toDigits 16 n
  List.replicate (length - digits.length) '0' ++ digits

/-- The quotes for a text: double ones exactly if that saves an escape. -/
def quoteFor (s : String) : Char :=
  if s.toList.contains '\'' && !s.toList.contains '"' then '"' else '\''

/-- A character inside the given quotes. -/
def quoteChar (quote c : Char) : List Char :=
  if c = quote ∨ c = '\\' then ['\\', c]
  else if c = '\n' then ['\\', 'n']
  else if c = '\r' then ['\\', 'r']
  else if c = '\t' then ['\\', 't']
  else if isPrintable c then [c]
  else if c.toNat < 0x100 then '\\' :: 'x' :: hexDigits 2 c.toNat
  else if c.toNat < 0x10000 then '\\' :: 'u' :: hexDigits 4 c.toNat
  else '\\' :: 'U' :: hexDigits 8 c.toNat

/-- The text in quotes. -/
def quoted (s : String) : String :=
  let quote := quoteFor s
  String.ofList (quote :: s.toList.flatMap (quoteChar quote) ++ [quote])

end LanguageUsage.Text
