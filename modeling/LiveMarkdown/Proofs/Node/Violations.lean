import LiveMarkdown.Node.Build
import LiveMarkdown.Node.ContentModel
import LiveMarkdown.Proofs.Node.Places

/-!
# The report of violations

The report of a tree lists exactly the places where the content model is broken, with the parent and
the child that are found there, in document order. Nothing counts below a document that is itself
below the root, and the children of a document at the root are exempt, but such a document may well
be the child that its parent does not accept. The report is read off the nodes on the way down: each
of them knows the nodes above it, and these decide whether the link to its parent is looked at.

## Main definitions

* `Violation.OccursIn`: a place of a tree where the content model is broken.
* `Visit.violation?`: the violation that a node is, judged by the nodes above it.

## Main results

* `Node.violations_eq_filterMap`: the report picks from the nodes on the way down.
* `Node.violations_sound_complete_ordered`: the report.
-/

namespace LiveMarkdown

/-- A place of a tree where the content model is broken: the parent that stands there does not
accept the child. No document stands between the root and the child, and the parent is no document
at the root. -/
structure Violation.OccursIn (root : Node) (v : Violation) : Prop where
  place_ne_nil : v.place ≠ []
  parent_at : root.at? v.place.dropLast = some v.parent
  child_at : root.at? v.place = some v.child
  not_accepted : v.parent.kind.accepts v.child.kind = false
  no_document_between : ∀ q n, q <+: v.place → q ≠ [] → q ≠ v.place → root.at? q = some n →
    n.kind ≠ .document
  not_exempt : ¬(root.kind = .document ∧ v.place.length = 1)

/-- The violation that a node is. The last of the nodes above it is the root of the tree, which may
be a document if it is not the parent. -/
def Visit.violation? (w : Visit) : Option Violation :=
  match w.above with
  | [] => none
  | parent :: above =>
    if parent.kind ≠ .document ∧ (∀ n ∈ (parent :: above).dropLast, n.kind ≠ .document) ∧
        parent.kind.accepts w.node.kind = false then
      some ⟨parent, w.node, w.place⟩
    else none

namespace Visit

variable {w : Visit} {v : Violation}

theorem violation?_eq_some_iff :
    w.violation? = some v ↔ ∃ above, w = ⟨v.child, v.parent :: above, v.place⟩ ∧
      v.parent.kind ≠ .document ∧
      (∀ n ∈ (v.parent :: above).dropLast, n.kind ≠ .document) ∧
      v.parent.kind.accepts v.child.kind = false := by
  obtain ⟨node, _ | ⟨parent, above⟩, place⟩ := w
  · simp [violation?]
  · rw [violation?, Option.ite_none_right_eq_some]
    constructor
    · rintro ⟨h, ⟨⟩⟩
      exact ⟨above, rfl, h⟩
    · rintro ⟨_, ⟨⟩, h⟩
      exact ⟨h, rfl⟩

/-- Nothing counts below a document that is not the root. -/
theorem violation?_eq_none {n : Node} (hmem : n ∈ w.above.dropLast) (hn : n.kind = .document) :
    w.violation? = none := by
  cases hv : w.violation? with
  | none => rfl
  | some v =>
    obtain ⟨above, rfl, -, hdocument, -⟩ := violation?_eq_some_iff.mp hv
    exact absurd hn (hdocument n hmem)

end Visit

namespace Node

/-! ### The report is read off the nodes on the way down -/

/-- Below a document that is not the root nothing is reported. -/
theorem filterMap_violation?_below_document {place : List Nat} {child parent : Node}
    {above ns : List Node} (hchild : child.kind = .document) :
    (visitsAmong .down place (child :: parent :: above) 0 ns).filterMap Visit.violation? = [] := by
  rw [List.filterMap_eq_nil_iff]
  intro w hw
  obtain ⟨nearer, habove⟩ := exists_above_eq_append hw
  refine Visit.violation?_eq_none (n := child) ?_ hchild
  rw [habove, List.dropLast_append_of_ne_nil (List.cons_ne_nil _ _), List.dropLast_cons_cons]
  exact List.mem_append_right _ List.mem_cons_self

mutual

/-- The violations below a node are read off the nodes below it, if the nodes above it are
entered. -/
theorem violationsBelow_eq (place : List Nat) (above : List Node) {permissive : Bool} : (n : Node) →
    (permissive = true ↔ n.kind = .document) → (∀ m ∈ (n :: above).dropLast, m.kind ≠ .document) →
    violationsBelow place permissive n =
      (visitsAmong .down place.reverse (n :: above) 0 n.children).filterMap Visit.violation?
  | leaf f l, _, _ => rfl
  | branch f c children, hpermissive, habove => by
    rw [violationsBelow,
      violationsAmong_eq (branch f c children) place above 0 children hpermissive habove]
    rfl

theorem violationsAmong_eq (parent : Node) (place : List Nat) (above : List Node)
    {permissive : Bool} (index : Nat) :
    (ns : List Node) → (permissive = true ↔ parent.kind = .document) →
    (∀ m ∈ (parent :: above).dropLast, m.kind ≠ .document) →
    violationsAmong parent place permissive index ns =
      (visitsAmong .down place.reverse (parent :: above) index ns).filterMap Visit.violation?
  | [], _, _ => rfl
  | child :: rest, hpermissive, habove => by
    have hown : (if !permissive && !parent.kind.accepts child.kind then
          [Violation.mk parent child (index :: place).reverse] else []) =
        (Visit.violation? ⟨child, parent :: above, (index :: place).reverse⟩).toList := by
      rw [Visit.violation?, apply_ite Option.toList]
      refine if_congr ?_ rfl rfl
      rw [and_iff_right habove, ne_eq, ← hpermissive]
      simp
    have hbelow :
        (if child.kind = .document then [] else violationsBelow (index :: place) false child) =
        (visitsAmong .down (index :: place).reverse (child :: parent :: above) 0
          child.children).filterMap Visit.violation? := by
      split
      · rename_i hchild
        exact (filterMap_violation?_below_document hchild).symm
      · rename_i hchild
        refine violationsBelow_eq (index :: place) (parent :: above) child
          (iff_of_false Bool.false_ne_true hchild) ?_
        rw [List.dropLast_cons_cons]
        exact List.forall_mem_cons.mpr ⟨hchild, habove⟩
    have hrest := violationsAmong_eq parent place above (index + 1) rest hpermissive habove
    rw [violationsAmong, hown, hbelow, hrest, visitsAmong, visitsFrom_down_eq, ← List.reverse_cons,
      List.filterMap_append, List.filterMap_cons]
    generalize Visit.violation? ⟨child, parent :: above, (index :: place).reverse⟩ = own
    cases own <;> rfl

end

/-- The report of a tree picks from the nodes on the way down. -/
theorem violations_eq_filterMap (root : Node) :
    root.violations = (root.visits .down).filterMap Visit.violation? := by
  rw [violations, visits, visitsFrom_down_eq,
    violationsBelow_eq [] [] root decide_eq_true_iff (List.forall_mem_nil _)]
  rfl

/-! ### The report -/

/-- Between the root and a child stand the nodes above it without the root. -/
theorem forall_between_iff {root : Node} {p : Node → Prop} {place : List Nat} {i : Nat}
    {above : List Node} (h : root.along? place = some above.reverse) :
    (∀ q n, q <+: place ++ [i] → q ≠ [] → q ≠ place ++ [i] → root.at? q = some n → p n) ↔
      ∀ n ∈ above.dropLast, p n := by
  have hmem : ∀ n, n ∈ above.dropLast ↔ ∃ q, q <+: place ∧ q ≠ [] ∧ root.at? q = some n := by
    intro n
    rw [← mem_tail_path_iff h, List.tail_reverse, List.mem_reverse]
  constructor
  · intro hbetween n hn
    obtain ⟨q, hq, hne, hat⟩ := (hmem n).mp hn
    refine hbetween q n (hq.trans (List.prefix_append _ _)) hne (fun heq => ?_) hat
    exact absurd hq.length_le (by simp [heq])
  · intro habove q n hq hne hplace hat
    have hprefix : q <+: place := (List.prefix_concat_iff.mp hq).resolve_left hplace
    exact habove n ((hmem n).mpr ⟨q, hprefix, hne, hat⟩)

/-- The links that are looked at: the parent of a child is no document, unless it stands between the
root and the child. -/
theorem parent_kind_ne_iff {root parent : Node} {place : List Nat} {i : Nat}
    (hparent : root.at? place = some parent)
    (hbetween : ∀ q n, q <+: place ++ [i] → q ≠ [] → q ≠ place ++ [i] → root.at? q = some n →
      n.kind ≠ .document) :
    parent.kind ≠ .document ↔ ¬(root.kind = .document ∧ (place ++ [i]).length = 1) := by
  by_cases hroot : place = []
  · subst hroot
    obtain rfl := Option.some.inj hparent
    simp
  · have hkind := hbetween place parent (List.prefix_append _ _) hroot (by simp) hparent
    simp [hkind, hroot]

/-- What is reported is what breaks the content model. -/
theorem mem_violations_iff {root : Node} {v : Violation} :
    v ∈ root.violations ↔ v.OccursIn root := by
  have hmem : v ∈ root.violations ↔ ∃ above,
      root.along? v.place = some ((v.parent :: above).reverse ++ [v.child]) ∧
      v.parent.kind ≠ .document ∧
        (∀ n ∈ (v.parent :: above).dropLast, n.kind ≠ .document) ∧
        v.parent.kind.accepts v.child.kind = false := by
    rw [violations_eq_filterMap, List.mem_filterMap]
    constructor
    · rintro ⟨w, hw, hv⟩
      obtain ⟨above, rfl, hrest⟩ := Visit.violation?_eq_some_iff.mp hv
      exact ⟨above, mem_visits_iff.mp hw, hrest⟩
    · rintro ⟨above, hpath, hrest⟩
      exact ⟨_, mem_visits_iff.mpr hpath, Visit.violation?_eq_some_iff.mpr ⟨above, rfl, hrest⟩⟩
  obtain ⟨parent, child, place⟩ := v
  rw [hmem]
  constructor
  · rintro ⟨above, hpath, hkind, habove, haccepts⟩
    obtain rfl | ⟨place, i, rfl⟩ := List.eq_nil_or_concat' place
    · exact absurd (along?_nil_eq_some_iff.mp hpath).1 (by simp)
    · obtain ⟨hfront, hchild⟩ := along?_concat_eq_some_iff.mp hpath
      have hparent : root.at? place = some parent :=
        at?_of_along? (hfront.trans (by rw [List.reverse_cons]))
      have hbetween := (forall_between_iff (i := i) hfront).mpr habove
      exact ⟨by simp, by rwa [List.dropLast_concat], hchild, haccepts, hbetween,
        (parent_kind_ne_iff hparent hbetween).mp hkind⟩
  · rintro ⟨hne, hparent, hchild, haccepts, hbetween, hexempt⟩
    obtain ⟨place, i, rfl⟩ := (List.eq_nil_or_concat' place).resolve_left hne
    rw [List.dropLast_concat] at hparent
    obtain ⟨path, hpath⟩ := exists_along?_of_at? hparent
    have hfront : root.along? place = some (parent :: path.reverse).reverse := by simpa using hpath
    exact ⟨path.reverse, along?_concat_eq_some_iff.mpr ⟨hfront, hchild⟩,
      (parent_kind_ne_iff hparent hbetween).mpr hexempt, (forall_between_iff hfront).mp hbetween,
      haccepts⟩

/-- The report of a tree lists exactly the places where the content model is broken, each with the
parent and the child that stand there. The places are strictly increasing in lexicographic order, so
each is listed once, and what stands below it comes behind it. -/
theorem violations_sound_complete_ordered (root : Node) :
    (∀ v, v ∈ root.violations ↔ v.OccursIn root) ∧
      (root.violations.map Violation.place).Pairwise (· < ·) := by
  refine ⟨fun v => mem_violations_iff, ?_⟩
  rw [List.pairwise_map, violations_eq_filterMap]
  refine (pairwise_place_visits_down root).filterMap _ fun u w hlt v hv v' hv' => ?_
  obtain ⟨above, rfl, -⟩ := Visit.violation?_eq_some_iff.mp hv
  obtain ⟨above', rfl, -⟩ := Visit.violation?_eq_some_iff.mp hv'
  exact hlt

/-- Text may stand in a document, but not in a quote. A document in a quote is reported itself, and
nothing in it is. -/
example :
    let inner := ofContainer .document [ofContainer (.list {}) [text "a"]]
    (ofContainer .document [text "a", ofContainer .blockQuote [inner, text "b"]]).violations.map
      Violation.place = [[1, 0], [1, 1]] := by
  decide

end Node

end LiveMarkdown
