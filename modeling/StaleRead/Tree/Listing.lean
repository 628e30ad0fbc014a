import StaleRead.Text.Blank
import StaleRead.Tree.Basic

/-! # Listings of trees

A listing has one line for each node of a tree, parents first and left to right:
the depth, the two ends of the range, `+` for a named node or `-` for another, the
field or `-`, and the kind, which may hold blanks. A node's children are the lines one
level deeper that follow it before a line that is not deeper.
-/

namespace StaleRead.Tree

namespace Listing

/-- A subtree and the depth at which it was listed. -/
structure Listed where
  depth : Nat
  tree : Tree

/-- The parts of a line that stand before the kind, and the kind. -/
def line? (chars : List Char) : Option Listed :=
  match (Text.Blank.pieces ' ' chars).map String.ofList with
  | depth :: start :: stop :: named :: field :: kind => do
      some
        { depth := ← depth.toNat?
          tree :=
            { kind := " ".intercalate kind
              named := named == "+"
              field := if field = "-" then none else some field
              start := ← start.toNat?
              stop := ← stop.toNat?
              children := [] } }
  | _ => none

/-- Give the deeper ones of the subtrees that follow a line to it as children. -/
def adopt (line : Listed) (following : List Listed) : List Listed :=
  let deeper (listed : Listed) : Bool := line.depth < listed.depth
  { line with
      tree := { line.tree with children := (following.takeWhile deeper).map Listed.tree } } ::
    following.dropWhile deeper

end Listing

/-- The first tree of a listing; lines that are not well formed are passed over. -/
def ofListing? (text : String) : Option Tree :=
  let lines := (Text.Blank.pieces '\n' text.toList).filterMap Listing.line?
  ((lines.foldr Listing.adopt []).head?).map Listing.Listed.tree

end StaleRead.Tree
