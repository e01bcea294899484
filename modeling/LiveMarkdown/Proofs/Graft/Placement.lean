import LiveMarkdown.Graft.Basic

/-!
# Where a grafted node goes

Grafting a node does one of two things. A list, a table or a description list may become one with
the last node of the document. Any other node ends up as a whole behind everything else: as the last
child of the document, or, being a part or inline, as the last child of the shallowest container on
the rightmost path that it fits, alone or in the containers that are made for it. Nodes never join
below the root, since only blocks join and blocks fit the root.

## Main definitions

* `Node.Joins`: two nodes become one.
* `Node.Grows`: a tree takes in a node on its rightmost path.
* `Document.joinedLast?`: what the last child of a document and a node become together.
* `Document.TakesIn`: a document takes in a node that joins nothing, and what it reports.

## Main results

* `Document.append_cases`: all that appending does.
* `Document.appendAll_cons`: appending nodes one after the other.
-/

namespace LiveMarkdown

/-! ### Nodes that join -/

/-- Two nodes become one: two lists of one type, two tables of one width or two description lists.
The one has the children of both. -/
inductive Node.Joins : Node → Node → Node → Prop
  | list {f g : NodeFlags} {a b : ListAttributes} {ns ms : List Node}
      (htype : a.listType = b.listType) :
      Joins (.branch f (.list a) ns) (.branch g (.list b) ms)
        (.branch f (.list { a with isTaskList := a.isTaskList || b.isTaskList }) (ns ++ ms))
  | table {f g : NodeFlags} {a b : TableAttributes} {ns ms : List Node}
      (hwidth : a.numColumns = b.numColumns) :
      Joins (.branch f (.table a) ns) (.branch g (.table b) ms)
        (.branch f (.table (a.refresh (ns ++ ms))) (ns ++ ms))
  | descriptionList {f g : NodeFlags} {ns ms : List Node} :
      Joins (.branch f .descriptionList ns) (.branch g .descriptionList ms)
        (.branch f .descriptionList (ns ++ ms))

namespace Node

variable {m n joined w : Node}

theorem joins_of_joined? (h : m.joined? n = some joined) : m.Joins n joined := by
  unfold joined? at h
  split at h
  · split at h
    · rename_i htype
      cases h
      exact .list htype
    · cases h
  · split at h
    · rename_i hwidth
      cases h
      exact .table hwidth
    · cases h
  · cases h
    exact .descriptionList
  · cases h

theorem Joins.kind_mem (h : m.Joins n joined) :
    n.kind ∈ [NodeKind.list, NodeKind.table, NodeKind.descriptionList] := by
  cases h <;> simp [kind, Container.kind]

theorem Joins.category_eq (h : m.Joins n joined) : n.kind.category = .block := by
  cases h <;> rfl

/-- Containers that join fit the same nodes. -/
theorem Joins.exists_fits {f : NodeFlags} {c : Container} {ns : List Node}
    (h : m.Joins (branch f c ns) joined) :
    ∃ g e ms, m = branch g e ms ∧ e ≠ .document ∧ ∀ k, e.fits k = c.fits k := by
  cases h with
  | list htype =>
    refine ⟨_, _, _, rfl, by simp, fun k => ?_⟩
    unfold Container.fits
    cases k with
    | leaf => rfl
    | branch _ e _ => cases e <;> simp [Container.kind, htype]
  | table => exact ⟨_, _, _, rfl, by simp, fun k => rfl⟩
  | descriptionList => exact ⟨_, _, _, rfl, by simp, fun k => rfl⟩

end Node

/-- What the last child of a document and a node become together, if they join. -/
def Document.joinedLast? (d : Document) (n : Node) : Option Node :=
  d.children.getLast?.bind (·.joined? n)

theorem appendChild_of_not_block {n : Node} (hn : n.kind.category ≠ .block) (children : List Node) :
    appendChild children n = children ++ [n] := by
  unfold appendChild
  split
  · rename_i joined hjoined
    obtain ⟨m, -, hm⟩ := Option.bind_eq_some_iff.mp hjoined
    exact absurd (Node.joins_of_joined? hm).category_eq hn
  · rfl

/-! ### Nodes on the rightmost path -/

/-- A tree takes in a node: the shallowest container on its rightmost path that the node fits gets
it as its last child, and tables on the way count anew. -/
inductive Node.Grows (n : Node) : Node → Node → Prop
  | here {f : NodeFlags} {c : Container} {children : List Node} (hc : c ≠ .document)
      (hfits : c.fits n = true) :
      Grows n (.branch f c children) (.branch f (c.refresh (children ++ [n])) (children ++ [n]))
  | deeper {f : NodeFlags} {c : Container} {front : List Node} {last grown : Node}
      (hc : c ≠ .document) (hfits : c.fits n = false) (h : Grows n last grown) :
      Grows n (.branch f c (front ++ [last]))
        (.branch f (c.refresh (front ++ [grown])) (front ++ [grown]))

namespace Node

variable {m n w joined : Node}

/-- Siblings take in a node if the last of them does. -/
theorem insertLast?_concat (n last : Node) :
    ∀ front : List Node, insertLast? n (front ++ [last]) = (insert? n last).map fun g =>
      front ++ [g]
  | [] => by
    rw [List.nil_append, insertLast?]
    cases insert? n last <;> rfl
  | [first] => by
    rw [List.singleton_append, insertLast?, ← List.nil_append [last], insertLast?_concat n last []]
    cases insert? n last <;> rfl
  | first :: second :: rest => by
    rw [List.cons_append, List.cons_append, insertLast?, ← List.cons_append,
      insertLast?_concat n last (second :: rest)]
    cases insert? n last <;> rfl

/-- A container on the rightmost path that a node fits is enough for a place. -/
theorem insertLast?_ne_none {children : List Node} {f : NodeFlags} {c : Container} {ns : List Node}
    (hlast : children.getLast? = some (branch f c ns)) (hc : c ≠ .document)
    (hfits : c.fits n = true) :
    insertLast? n children ≠ none := by
  obtain ⟨front, rfl⟩ := List.getLast?_eq_some_iff.mp hlast
  rw [insertLast?_concat, insert?, if_neg hc, if_pos hfits]
  exact Option.some_ne_none _

mutual

/-- A node that is no block grows onto the rightmost path of a tree. -/
theorem grows_of_insert? (hn : n.kind.category ≠ .block) :
    ∀ {m grown : Node}, insert? n m = some grown → Grows n m grown
  | leaf _ _, _, h => by cases h
  | branch f c children, grown, h => by
    rw [insert?] at h
    split at h
    · cases h
    · rename_i hc
      split at h
      · rename_i hfits
        rw [appendChild_of_not_block hn] at h
        cases h
        exact .here hc hfits
      · rename_i hfits
        split at h
        · rename_i grownChildren hchildren
          obtain ⟨front, last, g, hfront, rfl, hlast⟩ := exists_grows_of_insertLast? hn hchildren
          cases h
          rw [hfront]
          exact .deeper hc (Bool.eq_false_iff.mpr hfits) hlast
        · cases h

/-- A node that is no block grows onto the last of some siblings. -/
theorem exists_grows_of_insertLast? (hn : n.kind.category ≠ .block) :
    ∀ {children grown : List Node}, insertLast? n children = some grown →
      ∃ front last g, children = front ++ [last] ∧ grown = front ++ [g] ∧ Grows n last g
  | [], _, h => by cases h
  | [last], grown, h => by
    rw [insertLast?] at h
    split at h
    · rename_i g hlast
      cases h
      exact ⟨[], last, g, rfl, rfl, grows_of_insert? hn hlast⟩
    · cases h
  | first :: second :: rest, grown, h => by
    rw [insertLast?] at h
    split at h
    · rename_i g hrest
      obtain ⟨front, last, g, heq, rfl, hlast⟩ := exists_grows_of_insertLast? hn hrest
      cases h
      exact ⟨first :: front, last, _, by rw [heq]; rfl, rfl, hlast⟩
    · cases h

end

/-- The container that is made for a part holds that part alone, and the part fits it. -/
theorem exists_of_wrapper? (h : n.wrapper? = some w) :
    ∃ f c, w = branch f c [n] ∧ c ≠ .document ∧ c.fits n = true := by
  unfold wrapper? at h
  split at h <;> simp only [Option.some.injEq, reduceCtorEq] at h
  all_goals
    subst h
    refine ⟨_, _, rfl, by simp, ?_⟩
    simp [Container.fits, Container.kind, kind, NodeKind.accepts, NodeKind.contentModel]

end Node

/-! ### Nodes in a document -/

/-- A document takes in a node that joins nothing, and reports what was out of the ordinary. -/
inductive Document.TakesIn (d : Document) : Node → Document → List Diagnostic → Prop
  /-- A block goes to the end of the document. -/
  | atRoot {n : Node} (hn : n.kind.category = .block) :
      TakesIn d n { d with children := d.children ++ [n] } []
  /-- Any other node goes into a container that it fits. -/
  | within {n last grown : Node} {front : List Node} (hn : n.kind.category ≠ .block)
      (hchildren : d.children = front ++ [last]) (hgrown : Node.Grows n last grown) :
      TakesIn d n { d with children := front ++ [grown] } []
  /-- A part that fits no container gets one of its own. -/
  | wrapped {n w : Node} {grown : Document} {diagnostics : List Diagnostic}
      (hplace : d.place? n = none) (hw : n.wrapper? = some w) (h : TakesIn d w grown diagnostics) :
      TakesIn d n grown (.nodeGrafted n.kind w.kind :: diagnostics)
  /-- What fits nowhere goes to the end of the document. -/
  | atEnd {n : Node} (hplace : d.place? n = none) (hw : n.wrapper? = none) :
      TakesIn d n { d with children := d.children ++ [n] } [.contentModelFallback n.kind]

namespace Document

variable {d grown : Document} {n w : Node}

theorem place?_eq (d : Document) (n : Node) :
    d.place? n =
      if n.kind.category = .block then some { d with children := appendChild d.children n }
      else (Node.insertLast? n d.children).map fun grown => { d with children := grown } := by
  simp [place?, Container.fits, Container.kind, NodeKind.accepts, NodeKind.contentModel]

/-- The container made for a part that has no place joins nothing: what it could join has a place
for the part. -/
theorem joinedLast?_wrapper (hplace : d.place? n = none) (hw : n.wrapper? = some w) :
    d.joinedLast? w = none := by
  rw [joinedLast?, Option.bind_eq_none_iff]
  intro m hm
  cases hjoined : m.joined? w with
  | none => rfl
  | some joined =>
    obtain ⟨f, c, rfl, -, hfits⟩ := Node.exists_of_wrapper? hw
    obtain ⟨g, e, ms, rfl, he, hsame⟩ := (Node.joins_of_joined? hjoined).exists_fits
    rw [place?_eq] at hplace
    split at hplace
    · cases hplace
    · rw [Option.map_eq_none_iff] at hplace
      exact absurd hplace (Node.insertLast?_ne_none hm he ((hsame n).trans hfits))

/-- A place that a document has for a node which joins nothing. -/
theorem takesIn_of_place? (hplace : d.place? n = some grown) (hjoined : d.joinedLast? n = none) :
    d.TakesIn n grown [] := by
  rw [place?_eq] at hplace
  split at hplace
  · rename_i hn
    rw [appendChild, ← joinedLast?, hjoined] at hplace
    cases hplace
    exact .atRoot hn
  · rename_i hn
    obtain ⟨children, hchildren, rfl⟩ := Option.map_eq_some_iff.mp hplace
    obtain ⟨front, last, g, hfront, rfl, hlast⟩ := Node.exists_grows_of_insertLast? hn hchildren
    exact .within hn hfront hlast

/-- A node that joins nothing is taken in. The induction follows the containers that are made for
it. -/
theorem takesIn_append (d : Document) (n : Node) (hjoined : d.joinedLast? n = none) :
    d.TakesIn n (d.append n).1 (d.append n).2 := by
  rw [append]
  split
  · rename_i grown hplace
    exact takesIn_of_place? hplace hjoined
  · rename_i hplace
    split
    · rename_i w hw
      exact .wrapped hplace hw (takesIn_append d w (joinedLast?_wrapper hplace hw))
    · rename_i hw
      rw [appendChild, ← joinedLast?, hjoined]
      exact .atEnd hplace hw
termination_by n.wrapDepth
decreasing_by exact Node.wrapDepth_wrapper ‹_›

/-- All that appending does: the node joins the last child of the document, or it is taken in. -/
theorem append_cases (d : Document) (n : Node) :
    (∃ front last joined, d.children = front ++ [last] ∧ d.joinedLast? n = some joined ∧
        Node.Joins last n joined ∧ d.append n = ({ d with children := front ++ [joined] }, [])) ∨
      (d.joinedLast? n = none ∧ d.TakesIn n (d.append n).1 (d.append n).2) := by
  cases hjoined : d.joinedLast? n with
  | none => exact .inr ⟨rfl, takesIn_append d n hjoined⟩
  | some joined =>
    obtain ⟨last, hlast, hm⟩ := Option.bind_eq_some_iff.mp hjoined
    obtain ⟨front, hfront⟩ := List.getLast?_eq_some_iff.mp hlast
    have hjoins := Node.joins_of_joined? hm
    refine .inl ⟨front, last, joined, hfront, rfl, hjoins, ?_⟩
    have hplace : d.place? n = some { d with children := front ++ [joined] } := by
      rw [place?_eq, if_pos hjoins.category_eq, appendChild, ← joinedLast?, hjoined, hfront,
        List.dropLast_concat]
    rw [append, hplace]

/-! ### Appending several nodes -/

theorem appendAll_eq_foldl (d : Document) (ns : List Node) :
    d.appendAll ns =
      ns.foldl (fun acc n => ((acc.1.append n).1, acc.2 ++ (acc.1.append n).2)) (d, []) :=
  rfl

/-- What is appended does not depend on what has been reported before. -/
theorem foldl_append_eq (diagnostics : List Diagnostic) (ns : List Node) (d : Document) :
    ns.foldl (fun acc n => ((acc.1.append n).1, acc.2 ++ (acc.1.append n).2)) (d, diagnostics) =
      ((d.appendAll ns).1, diagnostics ++ (d.appendAll ns).2) := by
  induction ns generalizing diagnostics d with
  | nil => simp [appendAll]
  | cons n ns ih =>
    rw [appendAll_eq_foldl, List.foldl_cons, List.foldl_cons, ih, ih, List.nil_append,
      List.append_assoc]

theorem appendAll_nil (d : Document) : d.appendAll [] = (d, []) := rfl

theorem appendAll_cons (d : Document) (n : Node) (ns : List Node) :
    d.appendAll (n :: ns) =
      (((d.append n).1.appendAll ns).1, (d.append n).2 ++ ((d.append n).1.appendAll ns).2) := by
  rw [appendAll_eq_foldl, List.foldl_cons, foldl_append_eq, List.nil_append]

end Document

end LiveMarkdown
