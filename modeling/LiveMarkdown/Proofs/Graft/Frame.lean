import LiveMarkdown.Proofs.Graft.RightmostPath

/-!
# Grafting changes the rightmost path only

A node is appended to a container on the rightmost path, and each container above that one gets its
last child anew. Whatever is elsewhere in the document stays as it is, at the place where it is. A
container on the path keeps its flags and what it carries, but for the counters of a table and for
whether a list is one of tasks; its children keep their places as well, and new ones go behind them.

Both ways in which a container can grow, by new children and through its last child, keep everything
that is off the path. A growing tree is one such step on top of another, and so is a document.

## Main definitions

* `Container.AgreesWith`: two containers carry the same but for what grafting keeps up to date.
* `Node.Extends`: what may become of a container on the path.
* `Node.KeepsFrame`: one tree extends another on its rightmost path, and has all else in common with
  it.

## Main results

* `Node.keepsFrame_append`, `Node.keepsFrame_concat`: the two ways to grow.
* `Document.append_changes_rightmost_path_only`: what appending does to the node at a place.
-/

namespace LiveMarkdown

/-- Two containers carry the same, but for the counters of a table and for whether a list is one of
tasks. -/
inductive Container.AgreesWith : Container → Container → Prop
  | refl (c : Container) : AgreesWith c c
  | list (a : ListAttributes) (tasks : Bool) :
      AgreesWith (.list a) (.list { a with isTaskList := tasks })
  | table (a b : TableAttributes) : AgreesWith (.table a) (.table b)

/-- What may become of a container on the rightmost path. In the second case the last child is
itself on the path and extended, or else it stays as it is. -/
inductive Node.Extends : Node → Node → Prop
  /-- New children go behind those that are there. -/
  | gains {f : NodeFlags} {c e : Container} (children new : List Node) (h : c.AgreesWith e) :
      Extends (.branch f c children) (.branch f e (children ++ new))
  /-- The last child takes something in. -/
  | changesLast {f : NodeFlags} {c e : Container} (front : List Node) (last grown : Node)
      (h : c.AgreesWith e) : Extends (.branch f c (front ++ [last]))
      (.branch f e (front ++ [grown]))

/-- One tree extends another on its rightmost path: it has a node at every place of the other, and
off the path the same one. -/
def Node.KeepsFrame (m grown : Node) : Prop :=
  ∀ place k, m.at? place = some k →
    ∃ k', grown.at? place = some k' ∧
      if m.onRightmostPath place = true then k.Extends k' else k' = k

namespace Container

variable {c e : Container}

theorem AgreesWith.kind_eq (h : c.AgreesWith e) : e.kind = c.kind := by
  cases h <;> rfl

theorem agreesWith_refresh (c : Container) (children : List Node) :
    c.AgreesWith (c.refresh children) := by
  cases c with
  | table a => exact .table a _
  | _ => exact .refl _

end Container

namespace Node

variable {k k' m n last grown joined : Node}

theorem Extends.kind_eq (h : k.Extends k') : k'.kind = k.kind := by
  cases h with
  | gains _ _ h | changesLast _ _ _ h => exact h.kind_eq

theorem Extends.flags_eq (h : k.Extends k') : k'.flags = k.flags := by
  cases h <;> rfl

theorem extends_refl (h : k.isContainer = true) : k.Extends k := by
  cases k with
  | leaf => exact absurd h Bool.false_ne_true
  | branch f c children => simpa using Extends.gains children [] (.refl c)

/-! ### The two ways to grow -/

/-- A container that gains children keeps all that is below it. -/
theorem keepsFrame_append {c e : Container} (h : c.AgreesWith e) (f : NodeFlags)
    (children new : List Node) :
    (branch f c children).KeepsFrame (branch f e (children ++ new)) := by
  intro place k hk
  cases place with
  | nil =>
    cases hk
    exact ⟨_, rfl, .gains children new h⟩
  | cons i place =>
    refine ⟨k, ?_, ?_⟩
    · obtain ⟨child, hchild, hbelow⟩ := exists_of_at?_cons hk
      rw [at?_cons, List.getElem?_append_left (List.getElem?_eq_some_iff.mp hchild).1, hchild]
      exact hbelow
    · split
      · rename_i hpath
        exact extends_refl (isContainer_of_onRightmostPath rfl hpath hk)
      · rfl

/-- A container whose last child grows keeps all that is below it as far as that child does. -/
theorem keepsFrame_concat (hlast : last.KeepsFrame grown) (hcontainer : last.isContainer = true)
    (hdocument : last.kind ≠ .document) {c e : Container} (h : c.AgreesWith e) (f : NodeFlags)
    (front : List Node) :
    (branch f c (front ++ [last])).KeepsFrame (branch f e (front ++ [grown])) := by
  intro place k hk
  cases place with
  | nil =>
    cases hk
    exact ⟨_, rfl, .changesLast front last grown h⟩
  | cons i place =>
    by_cases hi : i < front.length
    · -- a child in front of the last one is off the path
      have hoff : (branch f c (front ++ [last])).onRightmostPath (i :: place) = false :=
        onRightmostPath_of_lt (by simpa using hi) f c place
      rw [at?_cons, List.getElem?_append_left hi] at hk
      exact ⟨k, by rw [at?_cons, List.getElem?_append_left hi, hk], by simp [hoff]⟩
    · obtain ⟨child, hchild, -⟩ := exists_of_at?_cons hk
      obtain rfl : i = front.length := by
        have hlength := (List.getElem?_eq_some_iff.mp hchild).1
        rw [List.length_append, List.length_singleton] at hlength
        omega
      rw [at?_concat] at hk
      rw [at?_concat, onRightmostPath_concat hcontainer hdocument]
      exact hlast place k hk

/-! ### Trees and documents -/

theorem Grows.keepsFrame (h : Grows n m grown) : m.KeepsFrame grown := by
  induction h with
  | @here f c children => exact keepsFrame_append (c.agreesWith_refresh _) f children [n]
  | @deeper f c front _ _ _ _ hgrows ih =>
    exact keepsFrame_concat ih hgrows.isContainer hgrows.kind_ne_document
      (c.agreesWith_refresh _) f front

theorem Joins.isContainer (h : last.Joins n joined) : last.isContainer = true := by
  cases h <;> rfl

theorem Joins.kind_ne_document (h : last.Joins n joined) : last.kind ≠ .document := by
  cases h <;> simp [kind, Container.kind]

theorem Joins.keepsFrame (h : last.Joins n joined) : last.KeepsFrame joined := by
  cases h with
  | @list f _ a _ ns ms => exact keepsFrame_append (.list a _) f ns ms
  | @table f _ a _ ns ms => exact keepsFrame_append (.table a _) f ns ms
  | @descriptionList f _ ns ms => exact keepsFrame_append (.refl .descriptionList) f ns ms

end Node

namespace Document

variable {d grown : Document} {n : Node}

theorem TakesIn.keepsFrame {diagnostics : List Diagnostic} (h : d.TakesIn n grown diagnostics) :
    d.toNode.KeepsFrame grown.toNode := by
  induction h with
  | @atRoot n | @atEnd n => exact Node.keepsFrame_append (.refl .document) d.flags d.children [n]
  | within _ hchildren hgrows =>
    rw [toNode, hchildren]
    exact Node.keepsFrame_concat hgrows.keepsFrame hgrows.isContainer hgrows.kind_ne_document
      (.refl .document) d.flags _
  | wrapped _ _ _ ih => exact ih

theorem keepsFrame_append (d : Document) (n : Node) :
    d.toNode.KeepsFrame (d.append n).1.toNode := by
  rcases d.append_cases n with ⟨front, last, joined, hchildren, -, hjoins, happend⟩ | ⟨-, htaken⟩
  · rw [happend, toNode, hchildren]
    exact Node.keepsFrame_concat hjoins.keepsFrame hjoins.isContainer hjoins.kind_ne_document
      (.refl .document) d.flags front
  · exact htaken.keepsFrame

/-- Appending a node changes the rightmost path only. At each place of the document there is
afterwards a node of the same kind and with the same flags. Off the path it is the same node, with
all that is below it. On the path it carries the same, but for the counters of a table and for
whether a list is one of tasks, and its children keep their places: new ones may go behind them, or
the last one may have changed, of which the same holds. -/
theorem append_changes_rightmost_path_only (d : Document) (n : Node) (place : List Nat) {k : Node}
    (hk : d.toNode.at? place = some k) :
    ∃ k', (d.append n).1.toNode.at? place = some k' ∧ k'.kind = k.kind ∧ k'.flags = k.flags ∧
      if d.toNode.onRightmostPath place = true then k.Extends k' else k' = k := by
  obtain ⟨k', hk', hkeeps⟩ := keepsFrame_append d n place k hk
  refine ⟨k', hk', ?_, ?_, hkeeps⟩
  · split at hkeeps
    · exact hkeeps.kind_eq
    · rw [hkeeps]
  · split at hkeeps
    · exact hkeeps.flags_eq
    · rw [hkeeps]

/-- A cell goes into the open row of a table, which is on the path. The row above is not. -/
theorem append_changes_rightmost_path_only_of_open_row :
    let cell := Node.ofContainer .tableCell []
    let head := Node.tableRow true [cell]
    let row := Node.tableRow false [cell]
    let d := Document.ofNodes [Node.table [head, row] none]
    d.toNode.at? [0, 0] = some head ∧ (d.append cell).1.toNode.at? [0, 0] = some head ∧
      d.toNode.at? [0, 1] = some row ∧
        ∃ grown, (d.append cell).1.toNode.at? [0, 1] = some grown ∧ grown.kind = .tableRow ∧
          row.Extends grown := by
  intro cell head row d
  refine ⟨rfl, ?_, rfl, ?_⟩
  · obtain ⟨k, hk, -, -, heq⟩ := append_changes_rightmost_path_only d cell [0, 0] (k := head) rfl
    rw [if_neg (by decide)] at heq
    rw [hk, heq]
  · obtain ⟨grown, hgrown, hkind, -, hextends⟩ :=
      append_changes_rightmost_path_only d cell [0, 1] (k := row) rfl
    rw [if_pos (by decide)] at hextends
    exact ⟨grown, hgrown, hkind, hextends⟩

end Document

end LiveMarkdown
