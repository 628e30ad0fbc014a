/-! # Syntax trees

A syntax tree carries, at every node, what kind of node it is, whether the grammar
names it, the field it fills in its parent, and the byte range it covers. The
analysis takes trees as they come: nothing is assumed of kinds, fields or ranges.
-/

namespace StaleRead

/-- A byte range with the kind of node that covers it. Nodes are compared by their
span, so two nodes with one span count as the same node. -/
structure Span where
  start : Nat
  stop : Nat
  kind : String
deriving DecidableEq, Hashable

namespace Span

/-- Spans compare by start, then end, then kind. -/
def le (first second : Span) : Bool :=
  if first.start = second.start then
    if first.stop = second.stop then !decide (second.kind < first.kind)
    else first.stop ≤ second.stop
  else first.start ≤ second.start

/-- Whether the first byte range includes the second. -/
def covers (outer inner : Span) : Bool :=
  outer.start ≤ inner.start && inner.stop ≤ outer.stop

end Span

/-- A syntax tree. Punctuation and keywords are nodes too; `named` tells them from
the nodes that the grammar names. -/
structure Tree where
  kind : String
  named : Bool
  field : Option String
  start : Nat
  stop : Nat
  children : List Tree

namespace Tree

/-- The span of the tree's root. -/
def span (tree : Tree) : Span :=
  ⟨tree.start, tree.stop, tree.kind⟩

mutual

/-- The number of nodes. -/
def size : Tree → Nat
  | ⟨_, _, _, _, _, children⟩ => 1 + sizeOfAll children

/-- The number of nodes of several trees. -/
def sizeOfAll : List Tree → Nat
  | [] => 0
  | tree :: rest => tree.size + sizeOfAll rest

end

@[simp] theorem sizeOfAll_nil : sizeOfAll [] = 0 := by
  rw [sizeOfAll]

@[simp] theorem sizeOfAll_cons (tree : Tree) (rest : List Tree) :
    sizeOfAll (tree :: rest) = tree.size + sizeOfAll rest := by
  rw [sizeOfAll]

theorem size_eq (tree : Tree) : tree.size = 1 + sizeOfAll tree.children := by
  cases tree
  rw [size]

@[simp] theorem sizeOfAll_append (first second : List Tree) :
    sizeOfAll (first ++ second) = sizeOfAll first + sizeOfAll second := by
  induction first with
  | nil => simp
  | cons tree rest ih => simp [ih, Nat.add_assoc]

end Tree

end StaleRead
