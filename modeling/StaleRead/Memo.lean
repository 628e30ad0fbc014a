import StaleRead.Tree.Node

/-! # Remembered answers

Questions about nodes are asked again and again. A memo keeps the answers that were
given, filed under the span of the node, and answers a repeated question from there.
Two nodes with one span share the answer that was computed for the first of them.
-/

namespace StaleRead

/-- The answers given so far, the latest first. -/
structure Memo (α : Type) where
  answers : List (Span × α)

namespace Memo

variable {α : Type}

/-- A memo with no answers. -/
def empty : Memo α := ⟨[]⟩

/-- The answer filed under a span. -/
def find? (memo : Memo α) (span : Span) : Option α :=
  memo.answers.lookup span

/-- Answer a question about a node from the memo, or else by computing and filing it. -/
def ask (memo : Memo α) (compute : Node → α) (node : Node) : α × Memo α :=
  match memo.find? node.span with
  | some answer => (answer, memo)
  | none =>
      let answer := compute node
      (answer, ⟨(node.span, answer) :: memo.answers⟩)

end Memo

end StaleRead
