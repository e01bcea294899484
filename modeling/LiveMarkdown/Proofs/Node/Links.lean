import LiveMarkdown.Node.Build
import LiveMarkdown.Node.ContentModel

/-!
# Parents and their children

Whether a tree keeps to the content model is a matter of its links, the pairs of a parent and a
child. Of either end only the kind counts, and the list type where it is a list or one of its items.
A tree is well-formed if no link breaks the content model and every list item is of the type of its
list. Nothing is asked of the children of a document, and the links inside a document that is itself
a child are not looked at.

## Main definitions

* `NodeProfile`, `Node.profile`: what the content model sees of a node.
* `Link`, `Node.links`: the links of a tree in document order.
* `Link.IsSound`: a link that keeps to the content model.
* `Node.violationKinds`, `Node.mixedItems`, `Node.WellFormed`: what breaks the content model.

## Main results

* `Node.violationKinds_eq`: the violations are read off the links.
* `Node.wellFormed_iff`: a tree is well-formed if all of its links are sound.
-/

namespace LiveMarkdown

/-- The list type of a list or a list item. -/
def Container.listType? : Container → Option ListType
  | .list a => some a.listType
  | .listItem a => some a.listType
  | _ => none

/-- What the content model sees of a node. -/
structure NodeProfile where
  kind : NodeKind
  /-- The list type of a list or a list item. -/
  listType? : Option ListType
  deriving DecidableEq

/-- What the content model sees of a node. -/
def Node.profile : Node → NodeProfile
  | leaf _ l => ⟨l.kind, none⟩
  | branch _ c _ => ⟨c.kind, c.listType?⟩

theorem Node.kind_profile (n : Node) : n.profile.kind = n.kind := by
  cases n <;> rfl

/-- A parent and one of its children. -/
structure Link where
  parent : NodeProfile
  child : NodeProfile
  deriving DecidableEq

namespace Link

/-- The kinds of a parent and a child that it does not accept. A document may hold anything. -/
def violation? (l : Link) : Option (NodeKind × NodeKind) :=
  if l.parent.kind ≠ .document ∧ l.parent.kind.accepts l.child.kind = false then
    some (l.parent.kind, l.child.kind)
  else none

/-- Whether a list holds a list item of another type. -/
def mixesItems (l : Link) : Bool :=
  l.parent.kind == .list && l.child.kind == .listItem && l.parent.listType? != l.child.listType?

/-- A link that keeps to the content model. -/
def IsSound (l : Link) : Prop :=
  l.violation? = none ∧ l.mixesItems = false

/-- A document may hold anything. -/
theorem isSound_of_document {l : Link} (h : l.parent.kind = .document) : l.IsSound := by
  simp [IsSound, violation?, mixesItems, h]

end Link

namespace Node

mutual

/-- The links of a tree in document order. -/
def links : Node → List Link
  | leaf _ _ => []
  | branch f c children => linksAmong (branch f c children).profile children

/-- The links at and below siblings. -/
def linksAmong (parent : NodeProfile) : List Node → List Link
  | [] => []
  | child :: rest =>
    ⟨parent, child.profile⟩ ::
      ((if child.kind = .document then [] else links child) ++ linksAmong parent rest)

end

/-- The links below a node that is itself a child. -/
def innerLinks (n : Node) : List Link :=
  if n.kind = .document then [] else n.links

theorem innerLinks_eq {n : Node} (h : n.kind ≠ .document) : n.innerLinks = n.links :=
  if_neg h

theorem linksAmong_eq_flatMap (parent : NodeProfile) (ns : List Node) :
    linksAmong parent ns = ns.flatMap fun n => ⟨parent, n.profile⟩ :: n.innerLinks := by
  induction ns with
  | nil => rw [linksAmong, List.flatMap_nil]
  | cons n ns ih => rw [linksAmong, ih, List.flatMap_cons, List.cons_append, innerLinks]

@[simp]
theorem links_branch (f : NodeFlags) (c : Container) (ns : List Node) :
    (branch f c ns).links =
      ns.flatMap fun n => ⟨⟨c.kind, c.listType?⟩, n.profile⟩ :: n.innerLinks := by
  rw [links, linksAmong_eq_flatMap, profile]

/-- The kinds of the parents and children that break the content model of a tree, in document
order. -/
def violationKinds (n : Node) : List (NodeKind × NodeKind) :=
  n.violations.map fun v => (v.parent.kind, v.child.kind)

/-- The number of list items in a list of another type. -/
def mixedItems (n : Node) : Nat :=
  n.links.countP Link.mixesItems

/-- The tree breaks the content model nowhere, and every list item is of the type of its list. -/
def WellFormed (n : Node) : Prop :=
  n.violations = [] ∧ n.mixedItems = 0

instance (n : Node) : Decidable n.WellFormed :=
  decidable_of_iff (n.violations.isEmpty = true ∧ n.mixedItems = 0)
    (and_congr_left fun _ => List.isEmpty_iff)

mutual

theorem map_kinds_violationsBelow (place : List Nat) {permissive : Bool} : (n : Node) →
    (permissive = true ↔ n.kind = .document) →
    (n.violationsBelow place permissive).map (fun v => (v.parent.kind, v.child.kind)) =
      n.links.filterMap Link.violation?
  | leaf _ _, _ => by simp [violationsBelow, links]
  | branch f c children, h => by
    rw [violationsBelow, links, map_kinds_violationsAmong (branch f c children) place 0 children h]

theorem map_kinds_violationsAmong (parent : Node) (place : List Nat) {permissive : Bool}
    (index : Nat) :
    (children : List Node) → (permissive = true ↔ parent.kind = .document) →
    (violationsAmong parent place permissive index children).map
        (fun v => (v.parent.kind, v.child.kind)) =
      (linksAmong parent.profile children).filterMap Link.violation?
  | [], _ => by simp [violationsAmong, linksAmong]
  | child :: rest, h => by
    have hrest := map_kinds_violationsAmong parent place (index + 1) rest h
    have hbelow : (if child.kind = .document then []
          else violationsBelow (index :: place) false child).map
            (fun v => (v.parent.kind, v.child.kind)) =
        (if child.kind = .document then [] else links child).filterMap Link.violation? := by
      split
      · rfl
      · rename_i hchild
        exact map_kinds_violationsBelow (index :: place) child
          (iff_of_false Bool.false_ne_true hchild)
    have hown : (if !permissive && !parent.kind.accepts child.kind then
          [Violation.mk parent child (index :: place).reverse] else []).map
            (fun v => (v.parent.kind, v.child.kind)) =
        [Link.mk parent.profile child.profile].filterMap Link.violation? := by
      simp only [Link.violation?, kind_profile, List.filterMap_cons, ne_eq, ← h]
      cases permissive <;> cases parent.kind.accepts child.kind <;> rfl
    rw [violationsAmong, linksAmong, List.map_append, List.map_append, hown, hbelow, hrest,
      List.append_assoc, ← List.filterMap_append, ← List.filterMap_append, List.singleton_append]

end

/-- The violations of a tree are read off its links. -/
theorem violationKinds_eq (n : Node) : n.violationKinds = n.links.filterMap Link.violation? :=
  map_kinds_violationsBelow [] n decide_eq_true_iff

/-- A tree is well-formed if all of its links are sound. -/
theorem wellFormed_iff (n : Node) : n.WellFormed ↔ ∀ l ∈ n.links, l.IsSound := by
  have hviolations : n.violations = [] ↔ n.violationKinds = [] := List.map_eq_nil_iff.symm
  rw [WellFormed, hviolations, violationKinds_eq, mixedItems, List.filterMap_eq_nil_iff,
    List.countP_eq_zero]
  constructor
  · rintro ⟨hviolation, hmixes⟩ l hl
    exact ⟨hviolation l hl, Bool.eq_false_iff.mpr (hmixes l hl)⟩
  · intro h
    exact ⟨fun l hl => (h l hl).1, fun l hl => Bool.eq_false_iff.mp (h l hl).2⟩

/-- An ordered list with a bullet item has no violation, but it is not well-formed. -/
example : (list { listType := .ordered } [listItem {} []]).violations = [] ∧
    ¬(list { listType := .ordered } [listItem {} []]).WellFormed :=
  ⟨rfl, by decide⟩

end Node

end LiveMarkdown
