import Mathlib.Data.List.Basic
import StaleRead.Text.Json

/-! # Reading the records back

A reader for JSON arrays of flat records, with blanks wherever JSON has them and with every
escape that a string can hold. What is written for some records is read back as these records
(`Json.read?_render`), so the text holds them and nothing else.

A string is read in two passes. The first gives the codes in it, where an escape is a code unit
of sixteen bits; the second joins the surrogate pairs among them.
-/

namespace StaleRead.Text.Json

/-- The characters that mean nothing between the parts of a document. -/
def isBlank (c : Char) : Bool :=
  c == ' ' || c == '\n' || c == '\r' || c == '\t'

/-- The characters without the blanks that they begin with. -/
def skip (chars : List Char) : List Char :=
  chars.dropWhile isBlank

/-- What is behind a character that comes next, apart from blanks. -/
def expect? (expected : Char) (chars : List Char) : Option (List Char) :=
  match skip chars with
  | [] => none
  | c :: rest => if c = expected then some rest else none

/-- The value of a digit to base sixteen. -/
def hexValue? (c : Char) : Option Nat :=
  if '0' ≤ c ∧ c ≤ '9' then some (c.toNat - 48)
  else if 'a' ≤ c ∧ c ≤ 'f' then some (c.toNat - 87)
  else if 'A' ≤ c ∧ c ≤ 'F' then some (c.toNat - 55)
  else none

/-- The code unit that four digits stand for. -/
def unit? (a b c d : Char) : Option Nat := do
  let a ← hexValue? a
  let b ← hexValue? b
  let c ← hexValue? c
  let d ← hexValue? d
  return ((a * 16 + b) * 16 + c) * 16 + d

/-- The code that a character behind a backslash stands for. -/
def escaped? (c : Char) : Option Nat :=
  [('"', 0x22), ('\\', 0x5C), ('/', 0x2F), ('b', 0x08), ('f', 0x0C), ('n', 0x0A), ('r', 0x0D),
    ('t', 0x09)].lookup c

/-- The codes up to a closing quotation mark, and what is behind it. -/
def codes? : List Char → Option (List Nat × List Char)
  | [] => none
  | '"' :: rest => some ([], rest)
  | '\\' :: 'u' :: a :: b :: c :: d :: rest => do
      let unit ← unit? a b c d
      let (codes, rest) ← codes? rest
      return (unit :: codes, rest)
  | '\\' :: c :: rest => do
      let code ← escaped? c
      let (codes, rest) ← codes? rest
      return (code :: codes, rest)
  | c :: rest =>
      if c.toNat < 0x20 then none
      else do
        let (codes, rest) ← codes? rest
        return (c.toNat :: codes, rest)

/-- Whether two codes are the halves of a character past U+FFFF. -/
def IsPair (high low : Nat) : Prop :=
  (0xD800 ≤ high ∧ high ≤ 0xDBFF) ∧ 0xDC00 ≤ low ∧ low ≤ 0xDFFF

instance (high low : Nat) : Decidable (IsPair high low) :=
  inferInstanceAs (Decidable (_ ∧ _))

/-- The characters with some codes; the halves of a pair are one character. -/
def characters? : List Nat → Option (List Char)
  | [] => some []
  | [code] => if code.isValidChar then some [Char.ofNat code] else none
  | code :: next :: rest =>
      if IsPair code next then do
        let chars ← characters? rest
        return Char.ofNat (0x10000 + (code - 0xD800) * 0x400 + (next - 0xDC00)) :: chars
      else if code.isValidChar then do
        let chars ← characters? (next :: rest)
        return Char.ofNat code :: chars
      else none

/-- A string, and what is behind it. -/
def string? (chars : List Char) : Option (String × List Char) := do
  let inside ← expect? '"' chars
  let (codes, rest) ← codes? inside
  let found ← characters? codes
  return (String.ofList found, rest)

/-- A natural number without leading zeros, and what is behind it. -/
def number? (chars : List Char) : Option (Nat × List Char) :=
  let digits := (skip chars).takeWhile Char.isDigit
  if digits = [] ∨ digits.head? = some '0' ∧ digits ≠ ['0'] then none
  else some (Nat.ofDigitChars 10 digits 0, (skip chars).dropWhile Char.isDigit)

/-- The value of a field, and what is behind it. -/
def scalar? (chars : List Char) : Option (Scalar × List Char) :=
  match string? chars with
  | some (value, rest) => some (.text value, rest)
  | none => (number? chars).map fun (value, rest) => (.number value, rest)

section Members

variable {α : Type}

/-- Members with commas between them, up to the closing bracket, and what is behind it. There
are fewer of them than characters. -/
def members? (member? : List Char → Option (α × List Char)) (closing : Char) :
    Nat → List Char → Option (List α × List Char)
  | 0, _ => none
  | fuel + 1, chars => do
      let (member, rest) ← member? chars
      match expect? closing rest with
      | some rest => return ([member], rest)
      | none =>
          let rest ← expect? ',' rest
          let (members, rest) ← members? member? closing fuel rest
          return (member :: members, rest)

/-- Members between brackets, and what is behind them. -/
def enclosed? (member? : List Char → Option (α × List Char)) (opening closing : Char)
    (chars : List Char) : Option (List α × List Char) := do
  let inside ← expect? opening chars
  match expect? closing inside with
  | some rest => return ([], rest)
  | none => members? member? closing inside.length inside

end Members

/-- A field, and what is behind it. -/
def field? (chars : List Char) : Option ((String × Scalar) × List Char) := do
  let (name, rest) ← string? chars
  let rest ← expect? ':' rest
  let (value, rest) ← scalar? rest
  return ((name, value), rest)

/-- The records in a document that is an array of flat records. -/
def read? (text : String) : Option (List Record) := do
  let (records, rest) ← enclosed? (enclosed? field? '\x7b' '\x7d') '[' ']' text.toList
  if skip rest = [] then some records else none

theorem hexValue?_hexDigit : ∀ value < 16, hexValue? (hexDigit value) = some value := by
  decide

/-- The codes that a character is written with: its own, or those of a surrogate pair. -/
def codesOf (c : Char) : List Nat :=
  if c.toNat < 0x10000 then [c.toNat]
  else [0xD800 + (c.toNat - 0x10000) / 0x400, 0xDC00 + (c.toNat - 0x10000) % 0x400]

/-- The code of a character is a scalar. -/
theorem scalar_toNat (c : Char) : c.toNat < 0xD800 ∨ 0xDFFF < c.toNat ∧ c.toNat < 0x110000 :=
  c.valid

section Codes

variable {rest behind : List Char} {codes : List Nat}

theorem codes?_escapeUnit (read : codes? rest = some (codes, behind)) {unit : Nat}
    (small : unit < 0x10000) :
    codes? (escapeUnit unit ++ rest) = some (unit :: codes, behind) := by
  have digit : ∀ value, hexValue? (hexDigit (value % 16)) = some (value % 16) :=
    fun value => hexValue?_hexDigit _ (Nat.mod_lt _ (by decide))
  have whole : ((unit / 0x1000 % 16 * 16 + unit / 0x100 % 16) * 16 + unit / 0x10 % 16) * 16 +
      unit % 16 = unit := by
    omega
  simp [escapeUnit, codes?, unit?, digit, whole, read]

/-- A character that has a letter of its own behind the backslash. -/
theorem codes?_escaped (read : codes? rest = some (codes, behind)) {letter : Char} {code : Nat}
    (known : escaped? letter = some code) :
    codes? ('\\' :: letter :: rest) = some (code :: codes, behind) := by
  have other : letter ≠ 'u' := by
    rintro rfl
    cases known
  rw [codes?, known, read]
  · rfl
  · exact fun _ _ _ _ _ same _ => other same

/-- A character that is written as itself. -/
theorem codes?_cons (read : codes? rest = some (codes, behind)) {c : Char}
    (mark : c ≠ '"') (backslash : c ≠ '\\') (printable : 0x20 ≤ c.toNat) :
    codes? (c :: rest) = some (c.toNat :: codes, behind) := by
  rw [codes?, if_neg (Nat.not_lt.mpr printable), read]
  · rfl
  · exact mark
  · exact fun _ _ _ _ _ same _ => backslash same
  · exact fun _ _ same _ => backslash same

theorem codes?_escapeChar (read : codes? rest = some (codes, behind)) (c : Char) :
    codes? (escapeChar c ++ rest) = some (codesOf c ++ codes, behind) := by
  have scalar := scalar_toNat c
  rw [escapeChar]
  split_ifs with mark backslash feed back tab bell form printable small
  · subst mark
    exact codes?_escaped read rfl
  · subst backslash
    exact codes?_escaped read rfl
  · subst feed
    exact codes?_escaped read rfl
  · subst back
    exact codes?_escaped read rfl
  · subst tab
    exact codes?_escaped read rfl
  · rw [codesOf, if_pos (by omega), bell]
    exact codes?_escaped read rfl
  · rw [codesOf, if_pos (by omega), form]
    exact codes?_escaped read rfl
  · rw [codesOf, if_pos (by omega)]
    exact codes?_cons read mark backslash printable.1
  · rw [codesOf, if_pos small]
    exact codes?_escapeUnit read small
  · rw [codesOf, if_neg small, List.append_assoc]
    exact codes?_escapeUnit (codes?_escapeUnit read (by omega)) (by omega)

theorem codes?_flatMap (chars : List Char) (rest : List Char) :
    codes? (chars.flatMap escapeChar ++ '"' :: rest) = some (chars.flatMap codesOf, rest) := by
  induction chars with
  | nil => rfl
  | cons c chars ih =>
      rw [List.flatMap_cons, List.append_assoc, List.flatMap_cons]
      exact codes?_escapeChar ih c

end Codes

theorem characters?_codesOf (chars : List Char) :
    characters? (chars.flatMap codesOf) = some chars := by
  induction chars with
  | nil => rfl
  | cons c chars ih =>
      have scalar := scalar_toNat c
      rw [List.flatMap_cons, codesOf]
      split
      · have single : ∀ next, ¬ IsPair c.toNat next := by
          rintro next ⟨⟨above, below⟩, -⟩
          omega
        have valid : c.toNat.isValidChar := c.valid
        cases later : chars.flatMap codesOf with
        | nil =>
            rw [later] at ih
            obtain rfl : chars = [] := (Option.some.inj ih).symm
            simp [characters?, valid]
        | cons next rest =>
            rw [later] at ih
            simp [characters?, single, valid, ih]
      · have pair : IsPair (0xD800 + (c.toNat - 0x10000) / 0x400)
            (0xDC00 + (c.toNat - 0x10000) % 0x400) := by
          constructor <;> omega
        have whole : 0x10000 + (0xD800 + (c.toNat - 0x10000) / 0x400 - 0xD800) * 0x400 +
            (0xDC00 + (c.toNat - 0x10000) % 0x400 - 0xDC00) = c.toNat := by
          omega
        rw [List.cons_append, List.cons_append, List.nil_append, characters?, if_pos pair, ih,
          whole]
        simp

/-- Blanks in front mean nothing. -/
theorem skip_newline (level : Nat) (chars : List Char) :
    skip (newline level ++ chars) = skip chars := by
  refine List.dropWhile_append_of_pos fun c member => ?_
  rcases List.mem_cons.mp member with rfl | blank
  · rfl
  · rw [List.eq_of_mem_replicate blank]
    rfl

theorem expect?_newline (c : Char) (level : Nat) (chars : List Char) :
    expect? c (newline level ++ chars) = expect? c chars := by
  rw [expect?, skip_newline, expect?]

theorem expect?_cons {c : Char} (visible : isBlank c = false) (expected : Char)
    (rest : List Char) :
    expect? expected (c :: rest) = if c = expected then some rest else none := by
  simp [expect?, skip, visible]

theorem string?_quote (text : String) (rest : List Char) :
    string? (quote text ++ rest) = some (text, rest) := by
  have opened : expect? '"' (quote text ++ rest) =
      some (text.toList.flatMap escapeChar ++ '"' :: rest) := by
    simp [quote, expect?_cons, isBlank]
  rw [string?, opened]
  simp [codes?_flatMap, characters?_codesOf]

/-- Only the digits of zero begin with a zero. -/
theorem toDigits_eq_of_head? {number : Nat} (zero : (Nat.toDigits 10 number).head? = some '0') :
    Nat.toDigits 10 number = ['0'] := by
  rcases Nat.lt_or_ge number 10 with small | large
  · rw [Nat.toDigits_of_lt_base small] at zero ⊢
    simpa using zero
  · rw [Nat.toDigits_of_base_le (by decide) large,
      List.head?_append_of_ne_nil _ Nat.toDigits_ne_nil] at zero
    have front := congrArg (Nat.ofDigitChars 10 · 0) (toDigits_eq_of_head? zero)
    simp only [Nat.ofDigitChars_toDigits (b := 10) (n := number / 10) (by decide) (by decide)]
      at front
    have none_left : number / 10 = 0 := front
    omega

/-- No digit comes next. -/
def EndsNumber (rest : List Char) : Prop :=
  rest.takeWhile Char.isDigit = []

/-- The digits of a number begin with a digit, which is no blank. -/
theorem exists_toDigits (number : Nat) :
    ∃ digit digits, Nat.toDigits 10 number = digit :: digits ∧ isBlank digit = false ∧
      digit ≠ '"' := by
  obtain ⟨digit, digits, split⟩ :=
    List.exists_cons_of_ne_nil (Nat.toDigits_ne_nil (n := number) (b := 10))
  have isDigit : digit.isDigit := by
    apply Nat.isDigit_of_mem_toDigits (b := 10) (n := number) (by decide) (by decide)
    rw [split]
    exact List.mem_cons_self
  refine ⟨digit, digits, split, ?_, ?_⟩
  · rw [← Bool.not_eq_true]
    intro blank
    simp only [isBlank, Bool.or_eq_true, beq_iff_eq] at blank
    rcases blank with ((rfl | rfl) | rfl) | rfl <;> cases isDigit
  · rintro rfl
    cases isDigit

theorem number?_toDigits (number : Nat) {rest : List Char} (ends : EndsNumber rest) :
    number? (Nat.toDigits 10 number ++ rest) = some (number, rest) := by
  have digits : ∀ c ∈ Nat.toDigits 10 number, c.isDigit := fun c member =>
    Nat.isDigit_of_mem_toDigits (by decide) (by decide) member
  have visible : skip (Nat.toDigits 10 number ++ rest) = Nat.toDigits 10 number ++ rest := by
    obtain ⟨digit, others, split, seen, -⟩ := exists_toDigits number
    simp [split, skip, seen]
  have ended : rest.dropWhile Char.isDigit = rest := by
    have whole := List.takeWhile_append_dropWhile (p := Char.isDigit) (l := rest)
    rwa [ends] at whole
  rw [number?, visible, List.takeWhile_append_of_pos digits, List.dropWhile_append_of_pos digits,
    ends, ended, List.append_nil, if_neg, Nat.ofDigitChars_toDigits (by decide) (by decide)]
  rintro (none | ⟨zero, more⟩)
  · exact Nat.toDigits_ne_nil none
  · exact more (toDigits_eq_of_head? zero)

theorem string?_toDigits (number : Nat) (rest : List Char) :
    string? (Nat.toDigits 10 number ++ rest) = none := by
  obtain ⟨digit, digits, split, visible, other⟩ := exists_toDigits number
  rw [string?, split, List.cons_append, expect?_cons visible, if_neg other]
  rfl

theorem scalar?_scalar (value : Scalar) {rest : List Char} (ends : EndsNumber rest) :
    scalar? (scalar value ++ rest) = some (value, rest) := by
  cases value with
  | number value =>
      rw [scalar?, scalar, string?_toDigits, number?_toDigits value ends]
      rfl
  | text value => rw [scalar?, scalar, string?_quote]

section Members

variable {α : Type} {member? : List Char → Option (α × List Char)} {write : α → List Char}
  {opening closing : Char}

/-- What is written for a member is read back as this member, also behind blanks, and is not
taken for the bracket behind all members. -/
structure ReadsBack (member? : List Char → Option (α × List Char)) (write : α → List Char)
    (closing : Char) : Prop where
  blank : ∀ level chars, member? (newline level ++ chars) = member? chars
  back : ∀ member rest, EndsNumber rest → member? (write member ++ rest) = some (member, rest)
  opens : ∀ member rest, expect? closing (write member ++ rest) = none

theorem members?_intercalate (reads : ReadsBack member? write closing)
    (visible : isBlank closing = false) (different : closing ≠ ',') (inner outer : Nat)
    (member : α) (members : List α) (rest : List Char) {fuel : Nat}
    (enough : members.length < fuel) :
    members? member? closing fuel (newline inner ++
      List.intercalate (',' :: newline inner) ((member :: members).map write) ++
        (newline outer ++ closing :: rest)) = some (member :: members, rest) := by
  induction members generalizing member fuel with
  | nil =>
      obtain ⟨fuel, rfl⟩ := Nat.exists_eq_add_one.mpr enough
      have found := reads.back member (newline outer ++ closing :: rest) rfl
      have closed : expect? closing (newline outer ++ closing :: rest) = some rest := by
        rw [expect?_newline, expect?_cons visible, if_pos rfl]
      rw [List.map_singleton, List.intercalate_singleton, members?, List.append_assoc,
        reads.blank, found]
      simp [closed]
  | cons next members ih =>
      obtain ⟨fuel, rfl⟩ := Nat.exists_eq_add_one.mpr (Nat.zero_lt_of_lt enough)
      have later := ih next (Nat.lt_of_succ_lt_succ enough)
      set behind := newline inner ++
        List.intercalate (',' :: newline inner) ((next :: members).map write) ++
          (newline outer ++ closing :: rest) with behind_eq
      have found := reads.back member (',' :: behind) rfl
      have more : expect? closing (',' :: behind) = none := by
        rw [expect?_cons rfl, if_neg different.symm]
      have comma : expect? ',' (',' :: behind) = some behind := by
        rw [expect?_cons rfl, if_pos rfl]
      have split : newline inner ++ List.intercalate (',' :: newline inner)
          ((member :: next :: members).map write) ++ (newline outer ++ closing :: rest) =
          newline inner ++ (write member ++ ',' :: behind) := by
        simp [behind_eq, List.intercalate_cons_cons]
      rw [split, members?, reads.blank, found]
      simp [more, comma, later]

/-- There are fewer members than characters. -/
theorem length_le_intercalate (separator : Char) (blanks : List Char)
    (members : List (List Char)) :
    members.length ≤ (List.intercalate (separator :: blanks) members).length + 1 := by
  induction members with
  | nil => exact Nat.zero_le _
  | cons member members ih =>
      cases members with
      | nil => simp
      | cons next members =>
          simp only [List.intercalate_cons_cons, List.length_append, List.length_cons] at ih ⊢
          omega

theorem enclosed?_enclose (reads : ReadsBack member? write closing)
    (opened : isBlank opening = false) (visible : isBlank closing = false)
    (different : closing ≠ ',') (level : Nat) (members : List α) (rest : List Char) :
    enclosed? member? opening closing
      (enclose opening closing level (members.map write) ++ rest) = some (members, rest) := by
  cases members with
  | nil =>
      rw [enclosed?, List.map_nil, enclose, List.isEmpty_nil, if_pos rfl, List.cons_append,
        expect?_cons opened, if_pos rfl]
      simp [expect?_cons visible]
  | cons member members =>
      set inside := newline (level + 1) ++ List.intercalate (',' :: newline (level + 1))
        ((member :: members).map write) ++ (newline level ++ closing :: rest) with inside_eq
      have split : enclose opening closing level ((member :: members).map write) ++ rest =
          opening :: inside := by
        simp [enclose, inside_eq]
      have more : expect? closing inside = none := by
        rw [inside_eq, List.append_assoc, expect?_newline]
        cases members with
        | nil =>
            rw [List.map_singleton, List.intercalate_singleton]
            exact reads.opens member _
        | cons next members =>
            rw [List.map_cons, List.map_cons, List.intercalate_cons_cons, List.append_assoc,
              List.append_assoc]
            exact reads.opens member _
      have enough : members.length < inside.length := by
        have bound := length_le_intercalate ',' (newline (level + 1))
          ((member :: members).map write)
        simp only [inside_eq, List.length_append, List.length_cons, List.length_map] at bound ⊢
        omega
      have found := members?_intercalate reads visible different (level + 1) level member members
        rest enough
      rw [← inside_eq] at found
      rw [split, enclosed?, expect?_cons opened, if_pos rfl]
      simp [more, found]

end Members

theorem string?_newline (level : Nat) (chars : List Char) :
    string? (newline level ++ chars) = string? chars := by
  rw [string?, expect?_newline, string?]

/-- The blank between a name and its value means nothing. -/
theorem scalar?_blank (chars : List Char) : scalar? (' ' :: chars) = scalar? chars := by
  have same : skip (' ' :: chars) = skip chars := rfl
  simp only [scalar?, string?, number?, expect?, same]

theorem field?_field (entry : String × Scalar) (rest : List Char) (ends : EndsNumber rest) :
    field? (field entry ++ rest) = some (entry, rest) := by
  have name := string?_quote entry.1 (':' :: ' ' :: (scalar entry.2 ++ rest))
  have colon : expect? ':' (':' :: ' ' :: (scalar entry.2 ++ rest)) =
      some (' ' :: (scalar entry.2 ++ rest)) := by
    rw [expect?_cons rfl, if_pos rfl]
  have value : scalar? (' ' :: (scalar entry.2 ++ rest)) = some (entry.2, rest) := by
    rw [scalar?_blank, scalar?_scalar entry.2 ends]
  have split : field entry ++ rest =
      quote entry.1 ++ ':' :: ' ' :: (scalar entry.2 ++ rest) := by
    simp [field]
  rw [split, field?, name]
  simp [colon, value]

theorem readsBack_field : ReadsBack field? field '\x7d' where
  blank level chars := by rw [field?, string?_newline, field?]
  back := field?_field
  opens _ _ := rfl

theorem readsBack_record : ReadsBack (enclosed? field? '\x7b' '\x7d') record ']' where
  blank level chars := by rw [enclosed?, expect?_newline, enclosed?]
  back fields rest _ := enclosed?_enclose readsBack_field rfl rfl (by decide) 1 fields rest
  opens fields _ := by cases fields <;> rfl

/-- **What is written for some records is a document that holds exactly these records.** -/
theorem read?_render (records : List Record) : read? (render records) = some records := by
  have found : enclosed? (enclosed? field? '\x7b' '\x7d') '[' ']'
      (enclose '[' ']' 0 (records.map record) ++ []) = some (records, []) :=
    enclosed?_enclose readsBack_record rfl rfl (by decide) 0 records []
  rw [List.append_nil] at found
  rw [read?, render, String.toList_ofList, found]
  rfl

/-- Blanks and surrogate pairs are read. -/
example : read? " [ \x7b\"a\":\"\\uD83D\\ude00\" , \"b\" : 10\x7d ]" =
    some [[("a", .text "😀"), ("b", .number 10)]] := by
  decide +kernel

end StaleRead.Text.Json
