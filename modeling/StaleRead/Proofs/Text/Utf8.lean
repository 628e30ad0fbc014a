import Mathlib.Tactic.SplitIfs
import StaleRead.Text.Utf8

/-! # What decoding reads

`Utf8.Reads` says which text some bytes spell: where the sequence of a character begins, that
character is read, and a byte at which no sequence begins is dropped. Decoding computes this
text, and there is no other (`Utf8.reads_iff`). A text has bytes exactly if there is no surrogate
in it (`Utf8.encodePoints_eq_error_iff`).
-/

namespace StaleRead.Text.Utf8

/-- Bytes read as a text. -/
inductive Reads : List UInt8 → List Char → Prop
  /-- No bytes are no text. -/
  | nil : Reads [] []
  /-- A sequence is read as its character. -/
  | char (c : Char) {bytes : List UInt8} {text : List Char} (rest : Reads bytes text) :
      Reads (String.utf8EncodeChar c ++ bytes) (c :: text)
  /-- A byte at which no sequence begins is dropped. -/
  | stray {byte : UInt8} {bytes : List UInt8} {text : List Char}
      (stray : ∀ c, ¬ String.utf8EncodeChar c <+: byte :: bytes) (rest : Reads bytes text) :
      Reads (byte :: bytes) text

theorem continuation?_eq_some_iff {byte : UInt8} {bits : Nat} :
    continuation? byte = some bits ↔ byte.toNat = 0x80 + bits ∧ bits < 64 := by
  simp only [continuation?, Option.ite_none_right_eq_some, Bool.and_eq_true, decide_eq_true_eq,
    Option.some.injEq, UInt8.le_iff_toNat_le, UInt8.reduceToNat]
  omega

theorem scalar?_eq_some_iff {least code : Nat} {c : Char} :
    scalar? least code = some c ↔ least ≤ code ∧ c.toNat = code := by
  rw [scalar?, Option.dite_none_right_eq_some]
  constructor
  · rintro ⟨valid, same⟩
    cases same
    exact ⟨valid.1, rfl⟩
  · rintro ⟨bound, rfl⟩
    exact ⟨⟨bound, c.valid⟩, rfl⟩

/-- The bytes of the sequence of a scalar with a given code, by their number. -/
inductive Spells (code : Nat) : List UInt8 → Prop
  | one {lead : UInt8} (above : code < 0x80) (first : lead.toNat = code) : Spells code [lead]
  | two {lead low : UInt8} (least : 0x80 ≤ code) (above : code < 0x800)
      (first : lead.toNat = 0xC0 + code / 64) (second : low.toNat = 0x80 + code % 64) :
      Spells code [lead, low]
  | three {lead middle low : UInt8} (least : 0x800 ≤ code) (above : code < 0x10000)
      (first : lead.toNat = 0xE0 + code / 64 / 64) (second : middle.toNat = 0x80 + code / 64 % 64)
      (third : low.toNat = 0x80 + code % 64) : Spells code [lead, middle, low]
  | four {lead high middle low : UInt8} (least : 0x10000 ≤ code) (above : code < 0x110000)
      (first : lead.toNat = 0xF0 + code / 64 / 64 / 64)
      (second : high.toNat = 0x80 + code / 64 / 64 % 64)
      (third : middle.toNat = 0x80 + code / 64 % 64) (fourth : low.toNat = 0x80 + code % 64) :
      Spells code [lead, high, middle, low]

theorem toNat_ofNat_of_lt {code : Nat} (byte : code < 256) : (UInt8.ofNat code).toNat = code := by
  rw [UInt8.toNat_ofNat', Nat.mod_eq_of_lt byte]

theorem toNat_lt (c : Char) : c.toNat < 0x110000 := by
  rcases c.valid with low | high
  · exact Nat.lt_trans low (by decide)
  · exact high.2

/-- The sequence of a character spells its code. -/
theorem spells_utf8EncodeChar (c : Char) : Spells c.toNat (String.utf8EncodeChar c) := by
  have bound : c.val.toNat < 0x110000 := toNat_lt c
  change Spells c.val.toNat _
  rw [String.utf8EncodeChar]
  split_ifs with one two three
  · exact .one (by omega) (toNat_ofNat_of_lt (by omega))
  · refine .two (by omega) (by omega) ?_ ?_ <;> rw [toNat_ofNat_of_lt (by omega)] <;> omega
  · refine .three (by omega) (by omega) ?_ ?_ ?_ <;> rw [toNat_ofNat_of_lt (by omega)] <;> omega
  · refine .four (by omega) (by omega) ?_ ?_ ?_ ?_ <;> rw [toNat_ofNat_of_lt (by omega)] <;> omega

/-- No other bytes spell the code of a character. -/
theorem Spells.eq_utf8EncodeChar {c : Char} {bytes : List UInt8} (spells : Spells c.toNat bytes) :
    bytes = String.utf8EncodeChar c := by
  have encoded := spells_utf8EncodeChar c
  generalize String.utf8EncodeChar c = other at encoded
  -- The bounds leave one number of bytes, and each byte is known by its value.
  cases spells <;> cases encoded <;>
    first
    | omega
    | simp only [List.cons.injEq, ← UInt8.toNat_inj, and_true]
      omega

/-- A sequence is read where it begins. -/
theorem Spells.sequence?_eq {c : Char} {lead : UInt8} {following : List UInt8}
    (spells : Spells c.toNat (lead :: following)) (rest : List UInt8) :
    sequence? lead (following ++ rest) = some (c, following.length) := by
  have bits : ∀ {byte : UInt8} {code : Nat}, byte.toNat = 0x80 + code % 64 →
      continuation? byte = some (code % 64) := fun value =>
    continuation?_eq_some_iff.mpr ⟨value, Nat.mod_lt _ (by decide)⟩
  simp only [sequence?, UInt8.lt_iff_toNat_lt, UInt8.reduceToNat]
  cases spells with
  | one above first =>
      have scalar : scalar? 0 lead.toNat = some c :=
        scalar?_eq_some_iff.mpr ⟨Nat.zero_le _, first.symm⟩
      rw [if_pos (by omega), scalar]
      rfl
  | two least above first second =>
      have scalar : scalar? 0x80 ((lead.toNat - 0xC0) * 64 + c.toNat % 64) = some c :=
        scalar?_eq_some_iff.mpr ⟨by omega, by omega⟩
      rw [if_neg (by omega), if_neg (by omega), if_pos (by omega)]
      simp [bits second, scalar]
  | three least above first second third =>
      have scalar : scalar? 0x800
          (((lead.toNat - 0xE0) * 64 + c.toNat / 64 % 64) * 64 + c.toNat % 64) = some c :=
        scalar?_eq_some_iff.mpr ⟨by omega, by omega⟩
      rw [if_neg (by omega), if_neg (by omega), if_neg (by omega), if_pos (by omega)]
      simp [bits second, bits third, scalar]
  | four least above first second third fourth =>
      have scalar : scalar? 0x10000
          ((((lead.toNat - 0xF0) * 64 + c.toNat / 64 / 64 % 64) * 64 + c.toNat / 64 % 64) * 64 +
            c.toNat % 64) = some c :=
        scalar?_eq_some_iff.mpr ⟨by omega, by omega⟩
      rw [if_neg (by omega), if_neg (by omega), if_neg (by omega), if_neg (by omega),
        if_pos (by omega)]
      simp [bits second, bits third, bits fourth, scalar]

/-- What is read is a sequence. -/
theorem spells_of_sequence? {c : Char} {lead : UInt8} {rest : List UInt8} {more : Nat}
    (found : sequence? lead rest = some (c, more)) :
    Spells c.toNat (lead :: rest.take more) := by
  simp only [sequence?, UInt8.lt_iff_toNat_lt, UInt8.reduceToNat] at found
  split_ifs at found with one stray two three four
  · obtain ⟨scalar, read, same⟩ := Option.map_eq_some_iff.mp found
    cases same
    have code := (scalar?_eq_some_iff.mp read).2
    exact .one (by omega) code.symm
  all_goals
    simp only [Option.bind_eq_bind, Option.bind_eq_some_iff, continuation?_eq_some_iff,
      scalar?_eq_some_iff] at found
  · obtain ⟨low, ⟨byte, place, value, bound⟩, scalar, ⟨least, code⟩, same⟩ := found
    cases same
    match rest, place with
    | _ :: _, rfl => exact .two (by omega) (by omega) (by omega) (by omega)
  · obtain ⟨middle, ⟨first, atFirst, firstValue, _⟩, low, ⟨second, atSecond, secondValue, _⟩,
      scalar, ⟨least, code⟩, same⟩ := found
    cases same
    match rest, atFirst, atSecond with
    | _ :: _ :: _, rfl, rfl =>
        exact .three (by omega) (by omega) (by omega) (by omega) (by omega)
  · obtain ⟨high, ⟨first, atFirst, firstValue, _⟩, middle, ⟨second, atSecond, secondValue, _⟩,
      low, ⟨third, atThird, thirdValue, _⟩, scalar, ⟨least, code⟩, same⟩ := found
    cases same
    have bound : c.toNat < 0x110000 := toNat_lt c
    match rest, atFirst, atSecond, atThird with
    | _ :: _ :: _ :: _, rfl, rfl, rfl =>
        exact .four (by omega) bound (by omega) (by omega) (by omega) (by omega)

theorem eq_append_of_sequence? {c : Char} {lead : UInt8} {rest : List UInt8} {more : Nat}
    (found : sequence? lead rest = some (c, more)) :
    lead :: rest = String.utf8EncodeChar c ++ rest.drop more := by
  rw [← (spells_of_sequence? found).eq_utf8EncodeChar, List.cons_append, List.take_append_drop]

/-- The skipping that decoding does after a sequence leaves the bytes behind it. -/
theorem decodeFrom_eq_drop (taken : Nat) (bytes : List UInt8) :
    decodeFrom taken bytes = decodeFrom 0 (bytes.drop taken) := by
  induction bytes generalizing taken with
  | nil => cases taken <;> rfl
  | cons byte rest ih =>
      cases taken with
      | zero => rfl
      | succ taken => rw [decodeFrom, ih, List.drop_succ_cons]

theorem decodeFrom_utf8EncodeChar_append (c : Char) (bytes : List UInt8) :
    decodeFrom 0 (String.utf8EncodeChar c ++ bytes) = c :: decodeFrom 0 bytes := by
  have spells := spells_utf8EncodeChar c
  generalize String.utf8EncodeChar c = encoded at spells ⊢
  cases encoded with
  | nil => nomatch spells
  | cons lead following =>
      simp only [List.cons_append, decodeFrom, spells.sequence?_eq bytes]
      rw [decodeFrom_eq_drop, List.drop_left]

theorem decodeFrom_stray {byte : UInt8} {bytes : List UInt8}
    (stray : ∀ c, ¬ String.utf8EncodeChar c <+: byte :: bytes) :
    decodeFrom 0 (byte :: bytes) = decodeFrom 0 bytes := by
  have nothing : sequence? byte bytes = none := by
    rw [Option.eq_none_iff_forall_ne_some]
    rintro ⟨c, more⟩ found
    exact stray c ⟨_, (eq_append_of_sequence? found).symm⟩
  simp only [decodeFrom, nothing]

/-- Decoding reads the bytes. -/
theorem reads_decodeFrom (bytes : List UInt8) : Reads bytes (decodeFrom 0 bytes) := by
  induction size : bytes.length using Nat.strongRecOn generalizing bytes with
  | ind size ih =>
      cases bytes with
      | nil => exact .nil
      | cons byte rest =>
          by_cases begins : ∃ c, String.utf8EncodeChar c <+: byte :: rest
          · obtain ⟨c, tail, split⟩ := begins
            have shorter : tail.length < (byte :: rest).length := by
              have taken := Char.utf8Size_pos c
              rw [← split, List.length_append, String.length_utf8EncodeChar]
              omega
            rw [← split, decodeFrom_utf8EncodeChar_append]
            exact .char c (ih _ (size ▸ shorter) tail rfl)
          · have stray := not_exists.mp begins
            rw [decodeFrom_stray stray]
            exact .stray stray (ih _ (size ▸ Nat.lt_succ_self rest.length) rest rfl)

/-- Bytes are read as their decoded text, and as no other text. -/
theorem reads_iff {bytes : List UInt8} {text : List Char} :
    Reads bytes text ↔ decodeFrom 0 bytes = text := by
  constructor
  · intro reads
    induction reads with
    | nil => rfl
    | char c _ ih => rw [decodeFrom_utf8EncodeChar_append, ih]
    | stray stray _ ih => rw [decodeFrom_stray stray, ih]
  · rintro rfl
    exact reads_decodeFrom bytes

theorem scalarsFrom_map_scalar (place : Nat) (scalars : List Char) :
    scalarsFrom place (scalars.map .scalar) = .ok scalars := by
  induction scalars generalizing place with
  | nil => rfl
  | cons c rest ih =>
      rw [List.map_cons, scalarsFrom, ih]
      rfl

/-- A result that is mapped fails exactly if it fails itself. -/
theorem exists_map_eq_error_iff {ε α β : Type} (f : α → β) (result : Except ε α) :
    (∃ error, result.map f = .error error) ↔ ∃ error, result = .error error := by
  cases result <;> simp [Except.map]

theorem scalarsFrom_eq_error_iff (place : Nat) (points : List CodePoint) :
    (∃ error, scalarsFrom place points = .error error) ↔
      ∃ offset, CodePoint.surrogate offset ∈ points := by
  induction points generalizing place with
  | nil => simp [scalarsFrom]
  | cons point rest ih =>
      cases point with
      | surrogate first => exact ⟨fun _ => ⟨first, List.mem_cons_self⟩, fun _ => ⟨_, rfl⟩⟩
      | scalar c =>
          rw [scalarsFrom, exists_map_eq_error_iff, ih]
          simp

/-- A text without surrogates has the bytes of its scalars. -/
theorem encodePoints_points (text : String) : encodePoints (points text) = .ok (encode text) := by
  rw [encodePoints, points, scalarsFrom_map_scalar, Except.map, String.ofList_toList]

/-- A text has no bytes exactly if there is a surrogate in it. -/
theorem encodePoints_eq_error_iff (points : List CodePoint) :
    (∃ error, encodePoints points = .error error) ↔
      ∃ offset, CodePoint.surrogate offset ∈ points := by
  rw [encodePoints, exists_map_eq_error_iff, scalarsFrom_eq_error_iff]

end StaleRead.Text.Utf8
