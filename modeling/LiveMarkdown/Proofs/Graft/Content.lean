import LiveMarkdown.Proofs.Graft.Placement
import LiveMarkdown.Proofs.Node.Preorder

/-!
# Grafting keeps the content

Grafting adds a node behind everything that is there, and nothing else but the containers made for
it. What stands in a tree is listed in document order: a container gives something that depends on
its kind alone, and then what its children give. In any such listing a grafted node is listed behind
the document, and between the two stand the containers that are reported to have been made, the last
reported first. A node that joins the last child of the document is listed without itself, as its
children only.

## Main definitions

* `Node.IsListing`: what is listed of a tree in document order.
* `wrapperKinds`: the kinds of the containers that diagnostics report.
* `Document.addedKinds`, `Document.addedKindsAll`: the kinds that appending adds.

## Main results

* `Node.IsListing.takesIn`, `Node.IsListing.joins`: what one step adds to a listing.
* `Document.append_keeps_content`: the kinds, the leaves and the text after any number of steps.
-/

namespace LiveMarkdown

/-- A listing of trees in document order: a container gives what its kind gives, and then its
children give theirs. -/
def Node.IsListing {α : Type} (head : NodeKind → List α) (listing : Node → List α) : Prop :=
  ∀ f c ns, listing (.branch f c ns) = head c.kind ++ ns.flatMap listing

theorem Node.isListing_walkedKinds : Node.IsListing (fun k => [k]) Node.walkedKinds :=
  Node.walkedKinds_branch

theorem Node.isListing_leaves : Node.IsListing (fun _ => []) Node.leaves :=
  Node.leaves_branch

/-- The kinds of the containers that diagnostics report to have been made, the last reported
first. -/
def wrapperKinds (diagnostics : List Diagnostic) : List NodeKind :=
  (diagnostics.filterMap fun
    | .nodeGrafted _ wrapper => some wrapper
    | _ => none).reverse

theorem wrapperKinds_nodeGrafted (k w : NodeKind) (diagnostics : List Diagnostic) :
    wrapperKinds (.nodeGrafted k w :: diagnostics) = wrapperKinds diagnostics ++ [w] := by
  simp [wrapperKinds]

/-! ### One step -/

namespace Node.IsListing

variable {α : Type} {head : NodeKind → List α} {listing : Node → List α} {n joined : Node}
  {d grown : Document} {diagnostics : List Diagnostic}

theorem grows (hlisting : IsListing head listing) {m grown : Node} (h : Node.Grows n m grown) :
    listing grown = listing m ++ listing n := by
  induction h with
  | here => simp [hlisting _ _ _, Container.kind_refresh]
  | deeper _ _ _ ih => simp [hlisting _ _ _, Container.kind_refresh, ih]

/-- A node that is taken in is listed behind the document and the containers that are made for
it. -/
theorem takesIn (hlisting : IsListing head listing) (h : d.TakesIn n grown diagnostics) :
    listing grown.toNode =
      listing d.toNode ++ (wrapperKinds diagnostics).flatMap head ++ listing n := by
  induction h with
  | atRoot => simp [Document.toNode, hlisting _ _ _, wrapperKinds]
  | within _ hchildren hgrown =>
    simp [Document.toNode, hlisting _ _ _, wrapperKinds, hchildren, hlisting.grows hgrown]
  | @wrapped n w grown diagnostics _ hw _ ih =>
    obtain ⟨f, c, rfl, -, -⟩ := Node.exists_of_wrapper? hw
    rw [ih, wrapperKinds_nodeGrafted, hlisting f c [n], Node.kind]
    simp
  | atEnd => simp [Document.toNode, hlisting _ _ _, wrapperKinds]

/-- A node that joins the last child of a document is listed without itself. -/
theorem joins (hlisting : IsListing head listing) {front : List Node} {last : Node}
    (hchildren : d.children = front ++ [last]) (h : last.Joins n joined) :
    ∃ rest, listing n = head n.kind ++ rest ∧
      listing (Document.toNode { d with children := front ++ [joined] }) =
      listing d.toNode ++ rest := by
  have hjoined : ∃ rest, listing n = head n.kind ++ rest ∧
      listing joined = listing last ++ rest := by
    cases h with
    | list | table | descriptionList =>
      exact ⟨_, hlisting _ _ _, by simp [hlisting _ _ _, Container.kind]⟩
  obtain ⟨rest, hn, hrest⟩ := hjoined
  exact ⟨rest, hn, by simp [Document.toNode, hlisting _ _ _, hchildren, hrest]⟩

end Node.IsListing

/-! ### Any number of steps -/

namespace Document

/-- The kinds that appending a node adds: those of the node without its own where it joins the last
child of the document, and else those of the containers that are made for it and then its own. -/
def addedKinds (d : Document) (n : Node) : List NodeKind :=
  match d.joinedLast? n with
  | some _ => n.walkedKinds.tail
  | none => wrapperKinds (d.append n).2 ++ n.walkedKinds

/-- The kinds that appending nodes adds, one node after the other. -/
def addedKindsAll (d : Document) : List Node → List NodeKind
  | [] => []
  | n :: ns => d.addedKinds n ++ (d.append n).1.addedKindsAll ns

theorem walkedKinds_append (d : Document) (n : Node) :
    (d.append n).1.toNode.walkedKinds = d.toNode.walkedKinds ++ d.addedKinds n := by
  rcases d.append_cases n with
    ⟨front, last, joined, hchildren, hjoined, hjoins, happend⟩ | ⟨hjoined, htaken⟩
  · obtain ⟨rest, hn, hrest⟩ := Node.isListing_walkedKinds.joins hchildren hjoins
    rw [happend, hrest, addedKinds, hjoined, hn]
    rfl
  · rw [Node.isListing_walkedKinds.takesIn htaken, addedKinds, hjoined, List.append_assoc]
    simp

theorem leaves_append (d : Document) (n : Node) :
    (d.append n).1.toNode.leaves = d.toNode.leaves ++ n.leaves := by
  rcases d.append_cases n with ⟨front, last, joined, hchildren, -, hjoins, happend⟩ | ⟨-, htaken⟩
  · obtain ⟨rest, hn, hrest⟩ := Node.isListing_leaves.joins hchildren hjoins
    rw [happend, hrest, hn, List.nil_append]
  · rw [Node.isListing_leaves.takesIn htaken]
    simp

theorem walkedKinds_appendAll (d : Document) (ns : List Node) :
    (d.appendAll ns).1.toNode.walkedKinds = d.toNode.walkedKinds ++ d.addedKindsAll ns := by
  induction ns generalizing d with
  | nil => rw [appendAll_nil, addedKindsAll, List.append_nil]
  | cons n ns ih => rw [appendAll_cons, ih, walkedKinds_append, addedKindsAll, List.append_assoc]

theorem leaves_appendAll (d : Document) (ns : List Node) :
    (d.appendAll ns).1.toNode.leaves = d.toNode.leaves ++ ns.flatMap Node.leaves := by
  induction ns generalizing d with
  | nil => rw [appendAll_nil, List.flatMap_nil, List.append_nil]
  | cons n ns ih => rw [appendAll_cons, ih, leaves_append, List.flatMap_cons, List.append_assoc]

/-- The text follows the leaves. -/
theorem textContent_appendAll (d : Document) (ns : List Node) :
    (d.appendAll ns).1.toNode.textContent = d.toNode.textContent ++ Node.textContentList ns := by
  rw [Node.textContent_eq, leaves_appendAll, List.map_append, String.join_append,
    ← Node.textContent_eq, ← Node.textContentList_eq]

theorem textContent_append (d : Document) (n : Node) :
    (d.append n).1.toNode.textContent = d.toNode.textContent ++ n.textContent := by
  rw [Node.textContent_eq, leaves_append, List.map_append, String.join_append,
    ← Node.textContent_eq, ← Node.textContent_eq]

/-- Grafting loses, duplicates and reorders nothing. A node that joins the last child adds its kinds
without its own; any other node adds its kinds behind those of the containers that are reported to
have been made for it. The leaves and the text of the node go behind those of the document either
way. Several nodes, and the children of another document, go one behind the other. -/
theorem append_keeps_content :
    (∀ (d : Document) (n : Node),
      (match d.joinedLast? n with
        | some joined =>
          n.kind ∈ [NodeKind.list, NodeKind.table, NodeKind.descriptionList] ∧
            d.append n = ({ d with children := d.children.dropLast ++ [joined] }, []) ∧
            (d.append n).1.toNode.walkedKinds = d.toNode.walkedKinds ++ n.walkedKinds.tail
        | none =>
          (d.append n).1.toNode.walkedKinds =
            d.toNode.walkedKinds ++ wrapperKinds (d.append n).2 ++ n.walkedKinds) ∧
        (d.append n).1.toNode.leaves = d.toNode.leaves ++ n.leaves ∧
        (d.append n).1.toNode.textContent = d.toNode.textContent ++ n.textContent) ∧
      (∀ (d : Document) (ns : List Node),
        (d.appendAll ns).1.toNode.walkedKinds = d.toNode.walkedKinds ++ d.addedKindsAll ns ∧
          (d.appendAll ns).1.toNode.leaves = d.toNode.leaves ++ ns.flatMap Node.leaves ∧
          (d.appendAll ns).1.toNode.textContent = d.toNode.textContent ++ Node.textContentList ns) ∧
      ∀ a b : Document,
        (a.merge b).1.toNode.walkedKinds = a.toNode.walkedKinds ++ a.addedKindsAll b.children ∧
          (a.merge b).1.toNode.leaves = a.toNode.leaves ++ b.toNode.leaves ∧
          (a.merge b).1.toNode.textContent = a.toNode.textContent ++ b.toNode.textContent := by
  refine ⟨fun d n => ⟨?_, leaves_append d n, textContent_append d n⟩,
    fun d ns => ⟨walkedKinds_appendAll d ns, leaves_appendAll d ns, textContent_appendAll d ns⟩,
    fun a b => ⟨walkedKinds_appendAll a b.children, ?_, textContent_appendAll a b.children⟩⟩
  · have hkinds := walkedKinds_append d n
    rw [addedKinds] at hkinds
    cases hjoined : d.joinedLast? n with
    | none =>
      rw [hjoined] at hkinds
      rw [hkinds, List.append_assoc]
    | some joined =>
      rw [hjoined] at hkinds
      rcases d.append_cases n with
        ⟨front, last, joined', hchildren, hjoined', hjoins, happend⟩ | ⟨hnone, -⟩
      · obtain rfl : joined = joined' := Option.some.inj (hjoined.symm.trans hjoined')
        refine ⟨hjoins.kind_mem, ?_, hkinds⟩
        rw [happend, hchildren, List.dropLast_concat]
      · exact absurd (hjoined.symm.trans hnone) (Option.some_ne_none joined)
  · have hb : b.toNode.leaves = b.children.flatMap Node.leaves := Node.leaves_branch _ _ _
    rw [merge, leaves_appendAll, hb]

end Document

end LiveMarkdown
