import LiveMarkdown.Node.Basic

/-!
# Building nodes

Nodes without flags, built from their content. A table counts its rows and columns; a fenced code
block without a fence character is an indented one.

## Main definitions

* `Node.ofLeaf`, `Node.ofContainer`: a node without flags.
* `Node.list`, `Node.listItem`, `Node.taskItem`, `Node.table`, `Node.codeBlock` and others.
-/

namespace LiveMarkdown.Node

/-- A leaf without flags. -/
def ofLeaf (l : Leaf) : Node := .leaf .none l

/-- A container without flags. -/
def ofContainer (c : Container) (children : List Node) : Node := .branch .none c children

/-- A piece of text. -/
def text (literal : String) : Node := ofLeaf (.text literal)

/-- A paragraph. -/
def paragraph (children : List Node) : Node := ofContainer .paragraph children

/-- A list with its items. -/
def list (attributes : ListAttributes) (children : List Node) : Node :=
  ofContainer (.list attributes) children

/-- A list item. -/
def listItem (attributes : ItemAttributes) (children : List Node) : Node :=
  ofContainer (.listItem attributes) children

/-- A list item with a box; a checked box is marked with an `x`. -/
def taskItem (checked : Bool) (children : List Node) : Node :=
  ofContainer (.taskItem checked (if checked then "x" else "")) children

/-- The number of children of the widest node. -/
def widest (rows : List Node) : Nat :=
  rows.foldl (fun n row => max n row.children.length) 0

/-- The largest of the numbers that stand for the elements of a list. -/
theorem foldl_max_le_iff {α : Type} (f : α → Nat) (xs : List α) (n k : Nat) :
    xs.foldl (fun n x => max n (f x)) n ≤ k ↔ n ≤ k ∧ ∀ x ∈ xs, f x ≤ k := by
  induction xs generalizing n with
  | nil => simp
  | cons x xs ih => rw [List.foldl_cons, ih, Nat.max_le, List.forall_mem_cons, and_assoc]

theorem widest_le_iff {rows : List Node} {k : Nat} :
    widest rows ≤ k ↔ ∀ row ∈ rows, row.children.length ≤ k := by
  rw [widest, foldl_max_le_iff, and_iff_right (Nat.zero_le k)]

/-- A table. Without alignments there are as many columns as the widest row has cells, and none of
them is aligned. -/
def table (rows : List Node) (alignments : Option (List Alignment)) : Node :=
  let columns := alignments.getD (List.replicate (widest rows) .none)
  ofContainer (.table ⟨columns, columns.length, rows.length⟩) rows

/-- A row of a table. -/
def tableRow (header : Bool) (cells : List Node) : Node := ofContainer (.tableRow header) cells

/-- A code block. A block without a fence character is indented. -/
def codeBlock (literal info : String) (mark : Option FenceMark) (length : Nat) : Node :=
  ofLeaf (.codeBlock ⟨mark.isSome, mark, if mark.isSome then length else 0, info, literal⟩)

end LiveMarkdown.Node
