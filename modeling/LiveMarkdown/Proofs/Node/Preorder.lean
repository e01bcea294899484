import LiveMarkdown.Node.Query

/-!
# Document order

The nodes of a tree stand in document order: each before its children, and these one after the
other. A walk that nothing cuts short calls the visitor on exactly these nodes in exactly this
order, so queries pick from them, and the text of a tree is the text of its leaves one after the
other.

## Main definitions

* `Node.preorder`: the nodes of a tree in document order.
* `Node.walkedKinds`: the kinds that an uncut walk meets.
* `Node.leaves`: the nodes without children of their own, as they are found.

## Main results

* `Node.walkDownFrom_goOn`: an uncut walk is the document order.
* `Node.findAll_eq`: what is found is picked from the nodes in document order.
* `Node.textContent_eq`: the text of a tree is the text of its leaves.
-/

namespace LiveMarkdown.Node

mutual

/-- The nodes of a tree in document order. -/
def preorder : Node → List Node
  | leaf f l => [leaf f l]
  | branch f c children => branch f c children :: preorderList children

/-- The nodes of siblings in document order. -/
def preorderList : List Node → List Node
  | [] => []
  | n :: ns => preorder n ++ preorderList ns

end

theorem preorderList_eq_flatMap (ns : List Node) : preorderList ns = ns.flatMap preorder := by
  induction ns with
  | nil => rfl
  | cons n ns ih => rw [preorderList, ih, List.flatMap_cons]

@[simp]
theorem preorder_leaf (f : NodeFlags) (l : Leaf) : (leaf f l).preorder = [leaf f l] := by
  rw [preorder]

@[simp]
theorem preorder_branch (f : NodeFlags) (c : Container) (ns : List Node) :
    (branch f c ns).preorder = branch f c ns :: ns.flatMap preorder := by
  rw [preorder, preorderList_eq_flatMap]

theorem mem_preorder_self (n : Node) : n ∈ n.preorder := by
  cases n <;> simp

theorem mem_preorderList_of_mem {n : Node} {ns : List Node} (h : n ∈ ns) : n ∈ preorderList ns := by
  rw [preorderList_eq_flatMap]
  exact List.mem_flatMap_of_mem h n.mem_preorder_self

theorem preorderList_subset {ns ms : List Node} (h : ns ⊆ ms) :
    preorderList ns ⊆ preorderList ms := by
  rw [preorderList_eq_flatMap, preorderList_eq_flatMap]
  intro m hm
  obtain ⟨n, hn, hm⟩ := List.mem_flatMap.mp hm
  exact List.mem_flatMap_of_mem (h hn) hm

/-- The trees below a node among siblings are among the nodes of the siblings. -/
theorem preorderList_subset_of_branch_mem {f : NodeFlags} {c : Container} {ns ms : List Node}
    (h : branch f c ns ∈ ms) : preorderList ns ⊆ preorderList ms := by
  intro n hn
  rw [preorderList_eq_flatMap]
  exact List.mem_flatMap_of_mem h (preorder.eq_def _ ▸ List.mem_cons_of_mem _ hn)

/-- What holds of all nodes of a tree holds of its root and in the trees below it. -/
theorem forall_mem_preorder_branch {P : Node → Prop} {f : NodeFlags} {c : Container}
    {ns : List Node} :
    (∀ m ∈ (branch f c ns).preorder, P m) ↔
      P (branch f c ns) ∧ ∀ n ∈ ns, ∀ m ∈ n.preorder, P m := by
  rw [preorder_branch, List.forall_mem_cons, List.forall_mem_flatMap]

/-! ### Walks that nothing cuts short -/

mutual

/-- A walk that nothing cuts short calls the visitor on the nodes in document order. -/
theorem walkDownFrom_goOn (parent : Option Node) : (n : Node) →
    (walkDownFrom (.ofGeneric fun _ _ => .goOn) parent n).stopped = false ∧
      (walkDownFrom (.ofGeneric fun _ _ => .goOn) parent n).calls.map Call.node = n.preorder
  | leaf f l => by simp [walkDownFrom, Visitor.visit, Visitor.ofGeneric]
  | branch f c children => by
    obtain ⟨hstopped, hcalls⟩ := walkDownList_goOn (some (branch f c children)) children
    simp [walkDownFrom, Visitor.visit, Visitor.ofGeneric, Walk.andThen, preorder]
      at hstopped hcalls ⊢
    exact ⟨hstopped, hcalls⟩

/-- A walk from siblings that nothing cuts short calls the visitor on the nodes in document
order. -/
theorem walkDownList_goOn (parent : Option Node) : (ns : List Node) →
    (walkDownList (.ofGeneric fun _ _ => .goOn) parent ns).stopped = false ∧
      (walkDownList (.ofGeneric fun _ _ => .goOn) parent ns).calls.map Call.node = preorderList ns
  | [] => by simp [walkDownList, preorderList]
  | n :: ns => by
    obtain ⟨hstopped, hcalls⟩ := walkDownFrom_goOn parent n
    obtain ⟨hstopped', hcalls'⟩ := walkDownList_goOn parent ns
    simp [walkDownList, Walk.andThen, preorderList, hstopped, hcalls, hstopped', hcalls']

end

theorem map_node_walkDown_goOn (root : Node) :
    (root.walkDown (.ofGeneric fun _ _ => .goOn)).map Call.node = root.preorder :=
  (walkDownFrom_goOn none root).2

/-- What is found is picked from the nodes in document order. -/
theorem findAll_eq (s : NodeSelector) (root : Node) :
    root.findAll s = root.preorder.filter s.picks := by
  rw [findAll, map_node_walkDown_goOn]

/-- The kinds of the nodes that a walk meets on its way down, when it always goes on. -/
def walkedKinds (root : Node) : List NodeKind :=
  (root.walkDown (.ofGeneric fun _ _ => .goOn)).map fun call => call.node.kind

theorem walkedKinds_eq (root : Node) : root.walkedKinds = root.preorder.map kind := by
  rw [← map_node_walkDown_goOn, List.map_map]
  rfl

@[simp]
theorem walkedKinds_branch (f : NodeFlags) (c : Container) (ns : List Node) :
    (branch f c ns).walkedKinds = c.kind :: ns.flatMap walkedKinds := by
  have hkinds : (fun n : Node => n.preorder.map kind) = walkedKinds :=
    funext fun n => (walkedKinds_eq n).symm
  rw [walkedKinds_eq, preorder_branch, List.map_cons, List.map_flatMap, hkinds]
  rfl

/-- The leaves of a tree, with all that they carry. -/
def leaves (root : Node) : List Node :=
  root.findAll (.ofTest fun n => !n.isContainer)

theorem leaves_eq (root : Node) : root.leaves = root.preorder.filter fun n => !n.isContainer :=
  findAll_eq _ root

@[simp]
theorem leaves_leaf (f : NodeFlags) (l : Leaf) : (leaf f l).leaves = [leaf f l] := by
  simp [leaves_eq, isContainer]

@[simp]
theorem leaves_branch (f : NodeFlags) (c : Container) (ns : List Node) :
    (branch f c ns).leaves = ns.flatMap leaves := by
  have hleaves : (fun n : Node => n.preorder.filter fun n => !n.isContainer) = leaves :=
    funext fun n => (leaves_eq n).symm
  rw [leaves_eq, preorder_branch, List.filter_cons_of_neg (by simp [isContainer]),
    List.filter_flatMap, hleaves]

/-! ### The text of a tree -/

mutual

/-- The text of a tree is the text of its leaves, one after the other. -/
theorem textContent_eq : (n : Node) → n.textContent = String.join (n.leaves.map textContent)
  | leaf f l => by simp
  | branch f c children => by rw [textContent, textContentList_eq children, leaves_branch]

/-- The text of siblings is the text of their leaves, one after the other. -/
theorem textContentList_eq : (ns : List Node) →
    textContentList ns = String.join ((ns.flatMap leaves).map textContent)
  | [] => by simp [textContentList]
  | n :: ns => by
    rw [textContentList, textContent_eq n, textContentList_eq ns, List.flatMap_cons,
      List.map_append, String.join_append]

end

end LiveMarkdown.Node
