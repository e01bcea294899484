import LiveMarkdown.Proofs.Node.Links
import LiveMarkdown.Proofs.Node.Preorder

/-!
# Regular trees

A tree is regular if every node of it is: it carries no flags, it is no document, it accepts its
children, and what it says about them is true. Lists say which items they have, tables how many rows
and columns.

## Main definitions

* `ListAttributes.Describes`, `TableAttributes.Describes`: the attributes agree with the items, or
  the rows.
* `Node.Described`: what a node says about its children is true.
* `Node.Regular`: every node of a tree is regular.

## Main results

* `Node.regular_branch`: a tree is regular if its root is and all trees below it are.
* `Document.violations_ofNodes`: a document of regular trees does not break the content model.
-/

namespace LiveMarkdown

/-- The attributes of a list agree with its items: list items are of its type, and it is a list of
tasks exactly if one of them is a task. -/
structure ListAttributes.Describes (a : ListAttributes) (items : List Node) : Prop where
  listType_eq : ∀ f b ns, .branch f (.listItem b) ns ∈ items → b.listType = a.listType
  isTaskList_iff : a.isTaskList = true ↔ ∃ item ∈ items, item.kind = .taskItem

/-- The attributes of a table agree with its rows: the rows are counted, there is one alignment for
each column and one cell in each row, and the first row is the only header. -/
structure TableAttributes.Describes (a : TableAttributes) (rows : List Node) : Prop where
  numRows_eq : a.numRows = rows.length
  length_alignments : a.alignments.length = a.numColumns
  cells_eq : ∀ row ∈ rows, row.children.length = a.numColumns
  header_iff : ∀ (i : Nat) f header cells, rows[i]? = some (.branch f (.tableRow header) cells) →
    (header = true ↔ i = 0)

/-- What a container says about its children is true. -/
def Container.Describes (children : List Node) : Container → Prop
  | .list a => a.Describes children
  | .table a => a.Describes children
  | _ => True

namespace Node

/-- What a node says about its children is true. -/
def Described : Node → Prop
  | leaf _ _ => True
  | branch _ c children => c.Describes children

/-- A node without flags that is no document, accepts its children and describes them rightly. -/
structure IsRegular (n : Node) : Prop where
  flags_eq : n.flags = .none
  kind_ne : n.kind ≠ .document
  accepts : ∀ child ∈ n.children, n.kind.accepts child.kind = true
  described : n.Described

/-- Every node of a tree is regular. -/
def Regular (n : Node) : Prop := ∀ m ∈ n.preorder, m.IsRegular

theorem regular_leaf (l : Leaf) : (leaf .none l).Regular := by
  intro m hm
  rw [preorder_leaf, List.mem_singleton] at hm
  subst hm
  exact ⟨rfl, by cases l <;> simp [kind, Leaf.kind], by simp [children], trivial⟩

theorem regular_branch (f : NodeFlags) (c : Container) (ns : List Node) :
    (branch f c ns).Regular ↔ (branch f c ns).IsRegular ∧ ∀ n ∈ ns, n.Regular := by
  simp only [Regular, preorder_branch, List.forall_mem_cons, List.forall_mem_flatMap]

/-- A container without flags is regular if it accepts its children, describes them rightly, and
they are regular. -/
theorem regular_ofContainer {c : Container} {ns : List Node} (hc : c ≠ .document)
    (haccepts : ∀ n ∈ ns, c.kind.accepts n.kind = true) (hdescribes : c.Describes ns)
    (hns : ∀ n ∈ ns, n.Regular) : (branch .none c ns).Regular := by
  refine (regular_branch _ _ _).mpr ⟨⟨rfl, ?_, haccepts, hdescribes⟩, hns⟩
  cases c <;> simp [kind, Container.kind] at hc ⊢

/-- A list whose items are of its type mixes no items. -/
theorem not_mixesItems_of_described {f : NodeFlags} {c : Container} {ns : List Node} {n : Node}
    (h : (branch f c ns).Described) (hn : n ∈ ns) :
    (Link.mk (branch f c ns).profile n.profile).mixesItems = false := by
  cases c with
  | list a =>
    cases n with
    | leaf g l => cases l <;> rfl
    | branch g e ms =>
      cases e with
      | listItem b =>
        have htype : b.listType = a.listType := ListAttributes.Describes.listType_eq h g b ms hn
        simp [Link.mixesItems, profile, Container.listType?, htype]
      | _ => rfl
  | _ => rfl

/-- The link from a regular node to a child of it is sound. -/
theorem IsRegular.isSound_link {f : NodeFlags} {c : Container} {ns : List Node} {n : Node}
    (h : (branch f c ns).IsRegular) (hn : n ∈ ns) :
    (Link.mk (branch f c ns).profile n.profile).IsSound := by
  refine ⟨?_, not_mixesItems_of_described h.described hn⟩
  simp [Link.violation?, kind_profile, h.accepts n hn]

mutual

/-- The links of a regular tree are sound. -/
theorem Regular.isSound_of_mem_links : {n : Node} → n.Regular → ∀ l ∈ n.links, l.IsSound
  | leaf _ _, _ => by simp [links]
  | branch f c ns, h => by
    obtain ⟨hroot, hns⟩ := (regular_branch f c ns).mp h
    exact isSound_of_mem_linksAmong (fun n hn => hroot.isSound_link hn) hns

theorem isSound_of_mem_linksAmong {parent : NodeProfile} : {ns : List Node} →
    (∀ n ∈ ns, (Link.mk parent n.profile).IsSound) → (∀ n ∈ ns, n.Regular) →
    ∀ l ∈ linksAmong parent ns, l.IsSound
  | [], _, _ => by simp [linksAmong]
  | n :: ns, hlinks, hns => by
    obtain ⟨hlink, hlinks⟩ := List.forall_mem_cons.mp hlinks
    obtain ⟨hn, hns⟩ := List.forall_mem_cons.mp hns
    rw [linksAmong, List.forall_mem_cons, List.forall_mem_append]
    refine ⟨hlink, ?_, isSound_of_mem_linksAmong hlinks hns⟩
    split
    · simp
    · exact Regular.isSound_of_mem_links hn

end

end Node

/-- A document of regular trees does not break the content model. -/
theorem Document.violations_ofNodes {ns : List Node} (h : ∀ n ∈ ns, n.Regular) :
    (Document.ofNodes ns).toNode.violations = [] := by
  have hsound : ∀ l ∈ (Document.ofNodes ns).toNode.links, l.IsSound :=
    Node.isSound_of_mem_linksAmong (fun n _ => Link.isSound_of_document rfl) h
  exact ((Node.wellFormed_iff _).mpr hsound).1

end LiveMarkdown
