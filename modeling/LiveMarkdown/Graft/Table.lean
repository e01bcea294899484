import LiveMarkdown.Node.Build

/-!
# Table counters

A table keeps the number of its rows and columns beside its rows. Whenever rows or cells are added
the counters follow: columns only ever grow, and the new ones are not aligned.

## Main definitions

* `TableAttributes.refresh`: the counters of a table with the given rows.
* `Container.refresh`: the same for any container; only tables count.
-/

namespace LiveMarkdown

/-- The counters of a table with the given rows. -/
def TableAttributes.refresh (a : TableAttributes) (rows : List Node) : TableAttributes :=
  let columns := max a.numColumns (Node.widest rows)
  { numColumns := columns
    numRows := rows.length
    alignments := a.alignments ++ List.replicate (columns - a.alignments.length) .none }

/-- A container that has been given the children. -/
def Container.refresh (c : Container) (children : List Node) : Container :=
  match c with
  | .table a => .table (a.refresh children)
  | c => c

/-- There are at least as many columns as the widest row has cells. -/
theorem TableAttributes.widest_le_refresh (a : TableAttributes) (rows : List Node) :
    Node.widest rows ≤ (a.refresh rows).numColumns :=
  Nat.le_max_right _ _

theorem Container.kind_refresh (c : Container) (children : List Node) :
    (c.refresh children).kind = c.kind := by
  cases c <;> rfl

end LiveMarkdown
