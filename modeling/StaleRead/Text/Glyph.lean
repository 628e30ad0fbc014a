import StaleRead.Text.LetterCase.Basic

/-! # Glyphs and plain terminals

Output uses a few glyphs that terminals without UTF-8 cannot show. `Glyph.toAscii`
replaces them one after the other by ASCII text. Whether a terminal shows UTF-8 is
decided by the name of its encoding.
-/

namespace StaleRead.Text.Glyph

/-- The glyphs, each with the text that stands in for it. -/
def replacements : List (Char × String) :=
  [('✓', "[OK]"), ('✗', "[FAIL]"), ('⚠', "[WARN]"), ('→', "->"), ('…', "..."), ('•', "*"),
    ('│', "|"), ('─', "-")]

/-- Replace every occurrence of one glyph. -/
def replace (glyph : Char) (text : List Char) (chars : List Char) : List Char :=
  chars.flatMap fun c => if c = glyph then text else [c]

/-- Replace the glyphs of a list, one after the other. -/
def replaceAll (glyphs : List (Char × String)) (chars : List Char) : List Char :=
  glyphs.foldl (fun chars (glyph, text) => replace glyph text.toList chars) chars

/-- A text in which ASCII stands in for the glyphs. -/
def toAscii (text : String) : String :=
  String.ofList (replaceAll replacements text.toList)

/-- A text as it is shown on a terminal that does or does not have UTF-8. -/
def forTerminal (utf8 : Bool) (text : String) : String :=
  if utf8 then text else toAscii text

/-- The encoding of a terminal: what the output declares, else what the system prefers,
else ASCII; in small letters. -/
def encodingName (declared? preferred? : Option String) : String :=
  match declared?.filter (!·.isEmpty) with
  | some declared => LetterCase.lower declared
  | none =>
      match preferred? with
      | some preferred => LetterCase.lower preferred
      | none => "ascii"

/-- The encoding that a locale names behind its dot. -/
def localeEncoding? (locale : String) : Option String :=
  match locale.toList.dropWhile (· != '.') with
  | [] => none
  | _ :: encoding => some (String.ofList encoding)

/-- The names of UTF-8. -/
def utf8Names : List String := ["utf-8", "utf8", "utf_8"]

/-- Whether an encoding is UTF-8. -/
def isUtf8 (encoding : String) : Bool :=
  encoding ∈ utf8Names

end StaleRead.Text.Glyph
