import StaleRead.Path
import StaleRead.Text.LetterCase.Basic

/-! # Languages

The grammars that source files are read with, and the file extensions that select
them. Extensions are compared in small letters.
-/

namespace StaleRead

/-- A grammar for source files. -/
inductive Language where
  | javascript
  | typescript
  | tsx
deriving DecidableEq

namespace Language

/-- The name of a language. -/
def name : Language → String
  | javascript => "javascript"
  | typescript => "typescript"
  | tsx => "tsx"

/-- The language with a given name. -/
def ofName? (text : String) : Option Language :=
  [javascript, typescript, tsx].find? (·.name == text)

/-- The extensions, each with its language. -/
def extensions : List (String × Language) :=
  [(".js", javascript), (".jsx", javascript), (".mjs", javascript), (".cjs", javascript),
    (".ts", typescript), (".tsx", tsx)]

/-- The language of a file, by its extension. -/
def ofPath? (path : Path) : Option Language :=
  extensions.lookup (Text.LetterCase.lower path.extension)

/-- Whether some language has the extension of a file. -/
def supports (path : Path) : Bool :=
  (ofPath? path).isSome

end Language

end StaleRead
