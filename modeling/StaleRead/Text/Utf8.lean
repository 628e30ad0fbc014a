/-! # Bytes and text

Source files are byte strings that need not be valid UTF-8. `Utf8.decode` keeps
every well-formed sequence, in order, and drops every byte that belongs to none,
so a stray byte never hides its neighbours. Overlong forms, surrogates and values
past the last scalar are not well formed.

A text that comes from elsewhere can hold surrogates by themselves. `Utf8.encodePoints`
gives the bytes of a text without any, and otherwise says where the first of them stand.
-/

namespace StaleRead.Text.Utf8

/-- The value of a continuation byte's six payload bits. -/
def continuation? (byte : UInt8) : Option Nat :=
  if 0x80 ≤ byte && byte ≤ 0xBF then some (byte.toNat - 0x80) else none

/-- The scalar with a given code, if the code is a scalar and is at least `least`. -/
def scalar? (least code : Nat) : Option Char :=
  if h : least ≤ code ∧ code.isValidChar then some (Char.ofNatAux code h.2) else none

/-- The scalar that starts at `lead`, with the number of bytes of `rest` it takes. -/
def sequence? (lead : UInt8) (rest : List UInt8) : Option (Char × Nat) :=
  if lead < 0x80 then
    (scalar? 0 lead.toNat).map (·, 0)
  else if lead < 0xC0 then
    none
  else if lead < 0xE0 then do
    let low ← rest[0]?.bind continuation?
    let scalar ← scalar? 0x80 ((lead.toNat - 0xC0) * 64 + low)
    return (scalar, 1)
  else if lead < 0xF0 then do
    let middle ← rest[0]?.bind continuation?
    let low ← rest[1]?.bind continuation?
    let scalar ← scalar? 0x800 (((lead.toNat - 0xE0) * 64 + middle) * 64 + low)
    return (scalar, 2)
  else if lead < 0xF8 then do
    let high ← rest[0]?.bind continuation?
    let middle ← rest[1]?.bind continuation?
    let low ← rest[2]?.bind continuation?
    let scalar ← scalar? 0x10000
      ((((lead.toNat - 0xF0) * 64 + high) * 64 + middle) * 64 + low)
    return (scalar, 3)
  else
    none

/-- Decode after skipping `taken` bytes, which the sequence just read has used. -/
def decodeFrom : Nat → List UInt8 → List Char
  | _, [] => []
  | taken + 1, _ :: rest => decodeFrom taken rest
  | 0, lead :: rest =>
      match sequence? lead rest with
      | some (scalar, more) => scalar :: decodeFrom more rest
      | none => decodeFrom 0 rest

/-- The text of a byte string, without the bytes that are not part of a
well-formed sequence. -/
def decode (bytes : List UInt8) : String :=
  String.ofList (decodeFrom 0 bytes)

/-- The bytes of a text. -/
def encode (text : String) : List UInt8 :=
  text.toUTF8.data.toList

/-- A code point: a scalar, or a surrogate by itself, counted from the first one. -/
inductive CodePoint where
  | scalar (c : Char)
  | surrogate (offset : Fin 0x800)
deriving DecidableEq

/-- Whether a code point is a surrogate. -/
def CodePoint.isSurrogate : CodePoint → Bool
  | scalar _ => false
  | surrogate _ => true

/-- The code points of a text without surrogates. -/
def points (text : String) : List CodePoint :=
  text.toList.map .scalar

/-- Why a text has no bytes: the place of its first surrogate, that surrogate, and how many more
follow it directly. -/
structure EncodeError where
  place : Nat
  first : Fin 0x800
  more : Nat
deriving DecidableEq

/-- The wording of an error. -/
def EncodeError.message (error : EncodeError) : String :=
  let what :=
    if error.more = 0 then
      "character '\\u" ++ String.ofList (Nat.toDigits 16 (0xD800 + error.first)) ++
        "' in position " ++ toString error.place
    else
      "characters in position " ++ toString error.place ++ "-" ++
        toString (error.place + error.more)
  "'utf-8' codec can't encode " ++ what ++ ": surrogates not allowed"

/-- The scalars of the code points from a place on, if there is no surrogate among them. -/
def scalarsFrom (place : Nat) : List CodePoint → Except EncodeError (List Char)
  | [] => .ok []
  | .scalar c :: rest => (scalarsFrom (place + 1) rest).map (c :: ·)
  | .surrogate first :: rest =>
      .error ⟨place, first, (rest.takeWhile CodePoint.isSurrogate).length⟩

/-- The bytes of a text, if there is no surrogate in it. -/
def encodePoints (points : List CodePoint) : Except EncodeError (List UInt8) :=
  (scalarsFrom 0 points).map fun scalars => encode (String.ofList scalars)

end StaleRead.Text.Utf8
