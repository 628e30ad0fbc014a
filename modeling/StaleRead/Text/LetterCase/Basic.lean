import StaleRead.Text.LetterCase.Capitals
import StaleRead.Text.LetterCase.Context

/-! # Texts in lower case

`LetterCase.lower` writes a text in small letters. Most characters have a small form of their
own; the capital I with a dot becomes an i and a combining dot, and a capital sigma becomes a
final sigma at the end of a word. `LetterCase.foldToAscii` is for comparison with ASCII
words: it writes the characters that count as forms of ASCII letters as these letters.
-/

namespace StaleRead.Text.LetterCase

/-- The capital I with a dot, the one letter whose small form is two characters. -/
def dottedI : Char := '\u0130'

/-- The small form of a character without regard to its place. -/
def lowerChar (c : Char) : List Char :=
  if c = dottedI then ['i', '\u0307'] else [Char.ofNat (lowerCode c.toNat)]

/-- Whether the word goes on: the first character that is not ignored is a letter with case. -/
def wordGoesOn (following : List Char) : Bool :=
  (following.find? (!isIgnorable ·)).any isCased

/-- Whether a word is open after a character, if it was or was not before. -/
def wordAfter (inWord : Bool) (c : Char) : Bool :=
  if isIgnorable c then inWord else isCased c

/-- The small form of the capital sigma: the final one if it ends a word. -/
def lowerSigma (inWord : Bool) (following : List Char) : Char :=
  if inWord && !wordGoesOn following then 'ς' else 'σ'

/-- Characters in small letters, where a word is or is not open before the first. -/
def lowerFrom (inWord : Bool) : List Char → List Char
  | [] => []
  | c :: rest =>
      (if c = 'Σ' then [lowerSigma inWord rest] else lowerChar c) ++
        lowerFrom (wordAfter inWord c) rest

/-- A text in small letters. -/
def lower (text : String) : String :=
  String.ofList (lowerFrom false text.toList)

/-- The characters beyond ASCII that count as forms of ASCII letters. -/
def asciiForms : List (Char × String) :=
  [('ß', "ss"), ('ſ', "s"), ('ẞ', "ss"), ('\u212A', "k"), ('ﬀ', "ff"), ('ﬁ', "fi"), ('ﬂ', "fl"),
    ('ﬃ', "ffi"), ('ﬄ', "ffl"), ('ﬅ', "st"), ('ﬆ', "st")]

/-- The folded form of a character, as far as it is ASCII; otherwise the character itself. -/
def foldChar (c : Char) : List Char :=
  match asciiForms.lookup c with
  | some form => form.toList
  | none => [c.toLower]

/-- A text whose characters are folded as far as their folded forms are ASCII. It is equal to
an ASCII text exactly if the whole folded text is. -/
def foldToAscii (text : String) : String :=
  String.ofList (text.toList.flatMap foldChar)

end StaleRead.Text.LetterCase
