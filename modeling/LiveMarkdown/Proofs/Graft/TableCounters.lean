import LiveMarkdown.Proofs.Graft.Placement
import LiveMarkdown.Proofs.Node.Preorder

/-!
# Grafting and the counters of tables

A table carries the number of its rows and of its columns and one alignment for each column.
Grafting touches a table in several ways: it gets a row, a row of it gets a cell, something grows
deeper inside it, another table joins it, or it is made around a row that has no place. Each time
its counters are taken anew, so that a document whose tables count rightly never gets a table that
does not.

## Main definitions

* `TableAttributes.Counts`: the counters agree with the rows.
* `Node.TablesCount`: all tables of a tree count rightly.

## Main results

* `TableAttributes.counts_refresh`: counters that are taken anew agree with the rows.
* `Node.Grows.tablesCount`, `Node.Joins.tablesCount`, `Document.TakesIn.tablesCount`: one step.
* `Document.tablesCount_append`, `Document.tablesCount_appendAll`: appending one node, and several.
-/

namespace LiveMarkdown

/-- The counters of a table agree with its rows: they number the rows, there are enough columns for
every row, and every column has one alignment. -/
structure TableAttributes.Counts (a : TableAttributes) (rows : List Node) : Prop where
  numRows_eq : a.numRows = rows.length
  cells_le : ∀ row ∈ rows, row.children.length ≤ a.numColumns
  length_alignments : a.alignments.length = a.numColumns

instance (a : TableAttributes) (rows : List Node) : Decidable (a.Counts rows) :=
  decidable_of_iff
    (a.numRows = rows.length ∧ (∀ row ∈ rows, row.children.length ≤ a.numColumns) ∧
      a.alignments.length = a.numColumns)
    ⟨fun h => ⟨h.1, h.2.1, h.2.2⟩, fun h => ⟨h.numRows_eq, h.cells_le, h.length_alignments⟩⟩

/-- A container with the given children is no table, or one that counts rightly. -/
def Container.Counts (children : List Node) : Container → Prop
  | .table a => a.Counts children
  | _ => True

/-- The node is no table, or one that counts rightly. -/
def Node.Counts : Node → Prop
  | leaf _ _ => True
  | branch _ c children => c.Counts children

instance (c : Container) (children : List Node) : Decidable (c.Counts children) := by
  cases c
  case table a => exact inferInstanceAs (Decidable (a.Counts children))
  all_goals exact isTrue trivial

instance : (n : Node) → Decidable n.Counts
  | .leaf _ _ => isTrue trivial
  | .branch _ c children => inferInstanceAs (Decidable (c.Counts children))

/-- All tables of a tree count rightly. -/
def Node.TablesCount (n : Node) : Prop :=
  ∀ m ∈ n.preorder, m.Counts

instance (n : Node) : Decidable n.TablesCount :=
  inferInstanceAs (Decidable (∀ m ∈ n.preorder, m.Counts))

/-! ### Counters taken anew -/

/-- Counters that are taken anew agree with the rows, if every column had an alignment. -/
theorem TableAttributes.counts_refresh {a : TableAttributes}
    (h : a.alignments.length = a.numColumns) (rows : List Node) : (a.refresh rows).Counts rows where
  numRows_eq := rfl
  cells_le := Node.widest_le_iff.mp (a.widest_le_refresh rows)
  length_alignments := by
    have hle : a.numColumns ≤ max a.numColumns (Node.widest rows) := Nat.le_max_left _ _
    simp only [refresh, List.length_append, List.length_replicate, h]
    omega

theorem Container.Counts.refresh {c : Container} {children : List Node} (h : c.Counts children)
    (grown : List Node) : (c.refresh grown).Counts grown := by
  cases c with
  | table a =>
    exact TableAttributes.counts_refresh (TableAttributes.Counts.length_alignments h) grown
  | _ => trivial

namespace Node

variable {n m w last grown joined : Node} {ns : List Node}

@[simp]
theorem tablesCount_leaf (f : NodeFlags) (l : Leaf) : (leaf f l).TablesCount := by
  simp [TablesCount, Counts]

@[simp]
theorem tablesCount_branch (f : NodeFlags) (c : Container) (ns : List Node) :
    (branch f c ns).TablesCount ↔ c.Counts ns ∧ ∀ n ∈ ns, n.TablesCount :=
  forall_mem_preorder_branch

/-- Flags play no part in counting. -/
theorem tablesCount_withFlags (f : NodeFlags) (n : Node) :
    (n.withFlags f).TablesCount ↔ n.TablesCount := by
  cases n <;> simp [withFlags]

/-! ### One step -/

/-- A tree that takes in a node has its tables on the way count anew. -/
theorem Grows.tablesCount (h : Grows n m grown) (hm : m.TablesCount) (hn : n.TablesCount) :
    grown.TablesCount := by
  induction h with
  | @here f c children _ _ =>
    obtain ⟨hcounts, hchildren⟩ := (tablesCount_branch f c children).mp hm
    refine (tablesCount_branch _ _ _).mpr ⟨hcounts.refresh _, ?_⟩
    exact List.forall_mem_append.mpr ⟨hchildren, List.forall_mem_singleton.mpr hn⟩
  | @deeper f c front last grown _ _ _ ih =>
    obtain ⟨hcounts, hchildren⟩ := (tablesCount_branch f c (front ++ [last])).mp hm
    obtain ⟨hfront, hlast⟩ := List.forall_mem_append.mp hchildren
    refine (tablesCount_branch _ _ _).mpr ⟨hcounts.refresh _, ?_⟩
    exact List.forall_mem_append.mpr
      ⟨hfront, List.forall_mem_singleton.mpr (ih (List.forall_mem_singleton.mp hlast))⟩

/-- Two tables that join count anew. -/
theorem Joins.tablesCount (h : last.Joins n joined) (hlast : last.TablesCount)
    (hn : n.TablesCount) :
    joined.TablesCount := by
  cases h with
  | list | descriptionList =>
    rw [tablesCount_branch] at hlast hn ⊢
    exact ⟨trivial, List.forall_mem_append.mpr ⟨hlast.2, hn.2⟩⟩
  | @table f g a b ns ms _ =>
    rw [tablesCount_branch] at hlast hn ⊢
    have hcounts : Container.Counts ns (.table a) := hlast.1
    exact ⟨hcounts.refresh (ns ++ ms), List.forall_mem_append.mpr ⟨hlast.2, hn.2⟩⟩

/-- A table without given alignments counts the rows that it is made from. -/
theorem tablesCount_table (h : ∀ n ∈ ns, n.TablesCount) : (table ns none).TablesCount := by
  refine (tablesCount_branch _ _ _).mpr ⟨?_, h⟩
  exact ⟨rfl, Node.widest_le_iff.mp (by simp), by simp⟩

/-- The container that is made for a part counts rightly if it is a table. -/
theorem tablesCount_of_wrapper? (h : n.wrapper? = some w) (hn : n.TablesCount) : w.TablesCount := by
  unfold wrapper? at h
  split at h <;> simp only [Option.some.injEq, reduceCtorEq] at h
  all_goals
    subst h
    rw [markSynthetic, addFlags, tablesCount_withFlags]
  case h_3 => exact tablesCount_table (List.forall_mem_singleton.mpr hn)
  all_goals exact (tablesCount_branch _ _ _).mpr ⟨trivial, List.forall_mem_singleton.mpr hn⟩

end Node

namespace Document

variable {d grown : Document} {n : Node} {diagnostics : List Diagnostic}

theorem tablesCount_toNode (d : Document) :
    d.toNode.TablesCount ↔ ∀ n ∈ d.children, n.TablesCount := by
  rw [toNode, Node.tablesCount_branch, and_iff_right (by trivial)]

/-- A document whose last child is exchanged for another one. -/
theorem tablesCount_of_concat {front : List Node} {last new : Node} (hd : d.toNode.TablesCount)
    (hchildren : d.children = front ++ [last]) (hnew : last.TablesCount → new.TablesCount) :
    (toNode { d with children := front ++ [new] }).TablesCount := by
  rw [tablesCount_toNode, hchildren] at hd
  obtain ⟨hfront, hlast⟩ := List.forall_mem_append.mp hd
  rw [tablesCount_toNode]
  exact List.forall_mem_append.mpr
    ⟨hfront, List.forall_mem_singleton.mpr (hnew (List.forall_mem_singleton.mp hlast))⟩

/-- A document with further children. -/
theorem tablesCount_of_append {ns : List Node} (hd : d.toNode.TablesCount)
    (hns : ∀ n ∈ ns, n.TablesCount) :
    (toNode { d with children := d.children ++ ns }).TablesCount := by
  rw [tablesCount_toNode] at hd ⊢
  exact List.forall_mem_append.mpr ⟨hd, hns⟩

theorem TakesIn.tablesCount (h : d.TakesIn n grown diagnostics) (hd : d.toNode.TablesCount)
    (hn : n.TablesCount) : grown.toNode.TablesCount := by
  induction h with
  | atRoot | atEnd => exact tablesCount_of_append hd (List.forall_mem_singleton.mpr hn)
  | within _ hchildren hgrown =>
    exact tablesCount_of_concat hd hchildren fun hlast => hgrown.tablesCount hlast hn
  | wrapped _ hw _ ih => exact ih (Node.tablesCount_of_wrapper? hw hn)

theorem tablesCount_append (hd : d.toNode.TablesCount) (hn : n.TablesCount) :
    (d.append n).1.toNode.TablesCount := by
  rcases d.append_cases n with ⟨front, last, joined, hchildren, -, hjoins, happend⟩ | ⟨-, htaken⟩
  · rw [happend]
    exact tablesCount_of_concat hd hchildren fun hlast => hjoins.tablesCount hlast hn
  · exact htaken.tablesCount hd hn

theorem tablesCount_appendAll {ns : List Node} (hd : d.toNode.TablesCount)
    (hns : ∀ n ∈ ns, n.TablesCount) : (d.appendAll ns).1.toNode.TablesCount := by
  induction ns generalizing d with
  | nil => exact hd
  | cons n ns ih =>
    rw [appendAll_cons]
    obtain ⟨hn, hns⟩ := List.forall_mem_cons.mp hns
    exact ih (tablesCount_append hd hn) hns

end Document

end LiveMarkdown
