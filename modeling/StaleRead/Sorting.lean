/-! # Sorting by insertion

`sortBy` is a stable sort: elements that the order does not tell apart keep their
order. `sortDistinct` also drops repetitions, so that the result depends only on
which elements occur.
-/

namespace StaleRead

variable {α : Type}

/-- Insert in front of the first element that is not before the new one. -/
def insertBy (le : α → α → Bool) (a : α) : List α → List α
  | [] => [a]
  | b :: rest => if le a b then a :: b :: rest else b :: insertBy le a rest

/-- Stable sort: each element is inserted before the later ones that it ties with. -/
def sortBy (le : α → α → Bool) (elements : List α) : List α :=
  elements.foldr (insertBy le) []

/-- Insert an element unless it is there already. -/
def insertDistinct [DecidableEq α] (le : α → α → Bool) (a : α) : List α → List α
  | [] => [a]
  | b :: rest =>
      if a = b then b :: rest
      else if le a b then a :: b :: rest
      else b :: insertDistinct le a rest

/-- The elements that occur, each once, in ascending order. -/
def sortDistinct [DecidableEq α] (le : α → α → Bool) (elements : List α) : List α :=
  elements.foldr (insertDistinct le) []

end StaleRead
