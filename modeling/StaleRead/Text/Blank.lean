/-! # Blanks and comma lists

A blank is a character that Unicode counts as white space, or one of the four
separator controls. `Blank.trimChars` removes blanks at both ends, and `Blank.commaList`
reads a list of names that are separated by commas, with blanks around them and empty
items ignored.
-/

namespace StaleRead.Text.Blank

/-- White space of Unicode, with the separator controls U+001C to U+001F. -/
def isBlank (c : Char) : Bool :=
  let code := c.toNat
  (0x09 ≤ code && code ≤ 0x0D) || (0x1C ≤ code && code ≤ 0x20) || code == 0x85 ||
    code == 0xA0 || code == 0x1680 || (0x2000 ≤ code && code ≤ 0x200A) || code == 0x2028 ||
    code == 0x2029 || code == 0x202F || code == 0x205F || code == 0x3000

/-- Characters without the blanks at their end. -/
def trimEnd (chars : List Char) : List Char :=
  (chars.reverse.dropWhile isBlank).reverse

/-- Characters without the blanks at either end. -/
def trimChars (chars : List Char) : List Char :=
  trimEnd (chars.dropWhile isBlank)

/-- The pieces between the separators; there is always at least one. -/
def pieces (separator : Char) : List Char → List (List Char)
  | [] => [[]]
  | c :: rest =>
      if c = separator then [] :: pieces separator rest
      else (pieces separator rest).modifyHead (c :: ·)

/-- The items of a comma-separated list, trimmed, without the empty ones. -/
def commaItems (chars : List Char) : List (List Char) :=
  ((pieces ',' chars).map trimChars).filter (!·.isEmpty)

/-- The names in a comma-separated list; an absent text lists none. -/
def commaList (text : Option String) : List String :=
  match text with
  | none => []
  | some text => (commaItems text.toList).map String.ofList

end StaleRead.Text.Blank
