import StaleRead.Text.Utf8

/-! # Source files

A source file is its bytes. A byte range of it has a text, decoded without the
bytes that are not UTF-8, and a byte offset has a point: the number of line feeds
before it and the number of bytes since the last one. Only the line feed ends a
row. A source is handed over as bytes or as a text, which must have bytes.
-/

namespace StaleRead

/-- The bytes of a source file. -/
structure Source where
  bytes : List UInt8
deriving DecidableEq

/-- A place in a source file, counted from zero: lines, then bytes in the line. -/
structure Point where
  row : Nat
  column : Nat
deriving DecidableEq

namespace Source

/-- The byte that ends a row. -/
def lineFeed : UInt8 := 0x0A

/-- The source file that holds a text. -/
def ofText (text : String) : Source :=
  ⟨Text.Utf8.encode text⟩

/-- The bytes from `start` up to `stop`. -/
def slice (source : Source) (start stop : Nat) : List UInt8 :=
  (source.bytes.drop start).take (stop - start)

/-- The text of a byte range. -/
def text (source : Source) (start stop : Nat) : String :=
  Text.Utf8.decode (source.slice start stop)

/-- The offset at which the last row of some bytes begins: behind their last line feed. -/
def lastRowStart (bytes : List UInt8) : Nat :=
  bytes.length - (bytes.reverse.takeWhile (· != lineFeed)).length

/-- The point of a byte offset. An offset behind the end continues the last row. -/
def point (source : Source) (offset : Nat) : Point :=
  let before := source.bytes.take offset
  ⟨before.count lineFeed, offset - lastRowStart before⟩

end Source

/-- A source as it is handed over: the code points of a text, or the bytes. -/
inductive GivenSource where
  | text (points : List Text.Utf8.CodePoint)
  | bytes (source : Source)
deriving DecidableEq

namespace GivenSource

/-- A text without surrogates, handed over as such. -/
def ofText (text : String) : GivenSource :=
  .text (Text.Utf8.points text)

/-- The source file that is handed over, if it has bytes. -/
def read : GivenSource → Except Text.Utf8.EncodeError Source
  | text points => (Text.Utf8.encodePoints points).map Source.mk
  | bytes source => .ok source

end GivenSource

end StaleRead
