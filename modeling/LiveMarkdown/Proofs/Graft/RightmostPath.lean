import LiveMarkdown.Proofs.Graft.ContentModel
import LiveMarkdown.Proofs.Node.Places

/-!
# The rightmost path by places

A place in a tree is on the rightmost path if each step towards it goes to a last child that is a
container and no document. Among the containers on the path one is the shallowest with a given
property, or none has it. What a container takes is said here in terms of the content model alone.

## Main definitions

* `Node.onRightmostPath`: the places on the rightmost path.
* `Node.Takes`: a container accepts a node, and a list its own items only.
* `Node.IsShallowest`, `Node.NoneOnPath`: the first container on the path with a property, and that
  there is none.

## Main results

* `Container.fits_iff_takes`: a node fits a container that takes it.
* `Node.IsShallowest.below`, `Node.noneOnPath_of_insert?`: how the search goes down the path.
-/

namespace LiveMarkdown

namespace Node

/-- Whether each step towards a place goes to a last child that is a container and no document. -/
def onRightmostPath : Node → List Nat → Bool
  | _, [] => true
  | n, i :: place =>
    match n.children[i]? with
    | none => false
    | some child =>
      i + 1 == n.children.length && child.isContainer && child.kind != .document &&
        child.onRightmostPath place

/-- A container accepts a node. A list item needs a list of its own type. -/
def Takes (m n : Node) : Prop :=
  m.kind.accepts n.kind = true ∧
    (m.kind = .list ∧ n.kind = .listItem → m.profile.listType? = n.profile.listType?)

/-- The shallowest container on the rightmost path of a tree with a property, and its place. -/
structure IsShallowest (root : Node) (p : Node → Prop) (place : List Nat) (m : Node) : Prop where
  onPath : root.onRightmostPath place = true
  at?_eq : root.at? place = some m
  holds : p m
  above : ∀ upper k, upper <+: place → upper ≠ place → root.at? upper = some k → ¬p k

/-- No container on the rightmost path of a tree has a property. -/
def NoneOnPath (root : Node) (p : Node → Prop) : Prop :=
  ∀ place m, root.onRightmostPath place = true → root.at? place = some m → ¬p m

end Node

variable {f : NodeFlags} {c : Container} {n m root last : Node} {front children : List Node}
  {i : Nat} {place : List Nat} {p : Node → Prop}

/-! ### Places below a container -/

namespace Node

theorem at?_concat (f : NodeFlags) (c : Container) (front : List Node) (last : Node)
    (place : List Nat) :
    (branch f c (front ++ [last])).at? (front.length :: place) = last.at? place := by
  rw [at?_cons, List.getElem?_concat_length, Option.bind_some]

theorem onRightmostPath_cons (f : NodeFlags) (c : Container) {child : Node}
    (h : children[i]? = some child) (place : List Nat) :
    (branch f c children).onRightmostPath (i :: place) =
      (i + 1 == children.length && child.isContainer && child.kind != .document &&
        child.onRightmostPath place) := by
  rw [onRightmostPath, show (branch f c children).children = children from rfl, h]

theorem onRightmostPath_concat (hcontainer : last.isContainer = true)
    (hdocument : last.kind ≠ .document) (f : NodeFlags) (c : Container) (front : List Node)
    (place : List Nat) :
    (branch f c (front ++ [last])).onRightmostPath (front.length :: place) =
      last.onRightmostPath place := by
  rw [onRightmostPath_cons f c List.getElem?_concat_length, List.length_append,
    List.length_singleton, hcontainer]
  simp [hdocument]

theorem onRightmostPath_of_lt (h : i + 1 < children.length) (f : NodeFlags) (c : Container)
    (place : List Nat) : (branch f c children).onRightmostPath (i :: place) = false := by
  rw [onRightmostPath_cons f c (List.getElem?_eq_getElem (Nat.lt_of_succ_lt h))]
  simp [Nat.ne_of_lt h]

/-- A place on the path below a container is below its last child. -/
theorem exists_concat_of_onRightmostPath
    (h : (branch f c children).onRightmostPath (i :: place) = true) :
    ∃ front last, children = front ++ [last] ∧ i = front.length ∧ last.isContainer = true ∧
      last.kind ≠ .document ∧ last.onRightmostPath place = true := by
  cases hchild : children[i]? with
  | none => simp [onRightmostPath, Node.children, hchild] at h
  | some child =>
    rw [onRightmostPath_cons f c hchild] at h
    simp only [Bool.and_eq_true, beq_iff_eq, bne_iff_ne] at h
    obtain ⟨⟨⟨hlength, hcontainer⟩, hdocument⟩, hpath⟩ := h
    have hlast : children.getLast? = some child := by
      rw [List.getLast?_eq_getElem?, ← hlength, Nat.add_sub_cancel, hchild]
    obtain ⟨front, rfl⟩ := List.getLast?_eq_some_iff.mp hlast
    rw [List.length_append, List.length_singleton, Nat.succ_inj] at hlength
    exact ⟨front, child, rfl, hlength, hcontainer, hdocument, hpath⟩

/-- Every node on the path of a container is a container. -/
theorem isContainer_of_onRightmostPath (hm : m.isContainer = true)
    (hpath : m.onRightmostPath place = true) {k : Node} (hk : m.at? place = some k) :
    k.isContainer = true := by
  induction place generalizing m with
  | nil => exact Option.some.inj hk ▸ hm
  | cons i place ih =>
    cases m with
    | leaf => exact absurd hm Bool.false_ne_true
    | branch f c children =>
      obtain ⟨front, last, rfl, rfl, hcontainer, -, hlast⟩ := exists_concat_of_onRightmostPath hpath
      rw [at?_concat] at hk
      exact ih hcontainer hlast hk

/-! ### What a container takes -/

theorem takes_iff_of_category (hn : n.kind.category = .inline) (m : Node) :
    m.Takes n ↔ m.kind.contentModel = .inline ∨ m.kind.contentModel = .cellContainer := by
  have haccepts : m.kind.accepts n.kind = true ↔
      m.kind.contentModel = .inline ∨ m.kind.contentModel = .cellContainer := by
    generalize n.kind = kind at hn
    generalize m.kind = parent
    revert hn
    cases parent <;> cases kind <;> decide
  rw [Takes, haccepts, and_iff_left]
  rintro ⟨-, hitem⟩
  rw [hitem] at hn
  exact absurd hn (by decide)

/-- A document takes exactly the blocks. -/
theorem takes_toNode_iff (d : Document) (n : Node) :
    d.toNode.Takes n ↔ n.kind.category = .block := by
  simp [Takes, Document.toNode, kind, Container.kind, NodeKind.accepts, NodeKind.contentModel]

/-- No container takes a document. -/
theorem not_takes_document (hn : n.kind = .document) (m : Node) : ¬m.Takes n := by
  rintro ⟨haccepts, -⟩
  rw [hn] at haccepts
  generalize m.kind = parent at haccepts
  revert haccepts
  cases parent <;> decide

end Node

/-- A node fits a container that takes it. -/
theorem Container.fits_iff_takes (f : NodeFlags) (c : Container) (children : List Node) (n : Node) :
    c.fits n = true ↔ (Node.branch f c children).Takes n := by
  unfold fits Node.Takes
  rw [Bool.and_eq_true]
  refine and_congr_right fun _ => ?_
  cases c with
  | list a =>
    cases n with
    | leaf g l => cases l <;> simp [Node.kind, Leaf.kind]
    | branch g e ns => cases e <;> simp [Node.kind, kind, Node.profile, listType?]
  | _ => simp [Node.kind, kind]

/-! ### The search along the path -/

namespace Node

theorem IsShallowest.congr {q : Node → Prop} (h : root.IsShallowest p place m)
    (hpq : ∀ k, p k ↔ q k) :
    root.IsShallowest q place m :=
  ⟨h.onPath, h.at?_eq, (hpq m).mp h.holds,
    fun upper k hprefix hne hk => fun hq => h.above upper k hprefix hne hk ((hpq k).mpr hq)⟩

/-- A container that has the property is the shallowest on its path. -/
theorem isShallowest_nil (hm : p m) : m.IsShallowest p [] m :=
  ⟨rfl, rfl, hm, fun _ _ hprefix hne _ => absurd (List.prefix_nil.mp hprefix) hne⟩

/-- Below a container without the property the search goes on in its last child. -/
theorem IsShallowest.below (h : last.IsShallowest p place m) (hcontainer : last.isContainer = true)
    (hdocument : last.kind ≠ .document) (hroot : ¬p (branch f c (front ++ [last]))) :
    (branch f c (front ++ [last])).IsShallowest p (front.length :: place) m := by
  refine ⟨?_, ?_, h.holds, fun upper k hprefix hne hk => ?_⟩
  · rw [onRightmostPath_concat hcontainer hdocument]
    exact h.onPath
  · rw [at?_concat]
    exact h.at?_eq
  · cases upper with
    | nil => exact Option.some.inj hk ▸ hroot
    | cons i upper =>
      obtain ⟨rfl, hbelow⟩ := List.cons_prefix_cons.mp hprefix
      rw [at?_concat] at hk
      exact h.above upper k hbelow (fun heq => hne (heq ▸ rfl)) hk

/-- The property is missing on the whole path if a container lacks it, and so does its last child
with all that is on the path below. -/
theorem noneOnPath_of_last (hroot : ¬p (branch f c children))
    (hlast : ∀ last, children.getLast? = some last → last.isContainer = true →
      last.kind ≠ .document → last.NoneOnPath p) : (branch f c children).NoneOnPath p := by
  intro place k hpath hk
  cases place with
  | nil => exact Option.some.inj hk ▸ hroot
  | cons i place =>
    obtain ⟨front, last, rfl, rfl, hcontainer, hdocument, hpath⟩ :=
      exists_concat_of_onRightmostPath hpath
    rw [at?_concat] at hk
    exact hlast last (List.getLast?_concat ..) hcontainer hdocument place k hpath hk

theorem insert?_eq_none_of_insertLast? (h : insertLast? n children = none)
    (hlast : children.getLast? = some last) : insert? n last = none := by
  obtain ⟨front, rfl⟩ := List.getLast?_eq_some_iff.mp hlast
  rw [insertLast?_concat, Option.map_eq_none_iff] at h
  exact h

/-- Where a node finds no place, no container on the path takes it. -/
theorem noneOnPath_of_insert? : ∀ {m : Node}, insert? n m = none → m.isContainer = true →
    m.kind ≠ .document → m.NoneOnPath (·.Takes n)
  | leaf _ _, _, hcontainer, _ => absurd hcontainer Bool.false_ne_true
  | branch f c children, h, _, hdocument => by
    have hc : c ≠ .document := by
      rintro rfl
      exact hdocument rfl
    rw [insert?, if_neg hc] at h
    split at h
    · cases h
    · rename_i hfits
      split at h
      · cases h
      · rename_i hchildren
        refine noneOnPath_of_last (mt (Container.fits_iff_takes f c children n).mpr hfits) ?_
        intro last hlast
        have hmem : last ∈ children := List.mem_of_getLast? hlast
        exact noneOnPath_of_insert? (insert?_eq_none_of_insertLast? hchildren hlast)

theorem Grows.isContainer {grown : Node} (h : Grows n m grown) : m.isContainer = true := by
  cases h <;> rfl

/-- A tree takes in a node in the shallowest container on its rightmost path that takes it, as its
last child. -/
theorem Grows.exists_isShallowest {grown : Node} (h : Grows n m grown) :
    ∃ place k k', m.IsShallowest (·.Takes n) place k ∧ grown.at? place = some k' ∧
      k'.children = k.children ++ [n] := by
  induction h with
  | @here f c children _ hfits =>
    exact ⟨[], _, _, isShallowest_nil ((Container.fits_iff_takes f c children n).mp hfits),
      rfl, rfl⟩
  | @deeper f c front last grown _ hfits hgrows ih =>
    obtain ⟨place, k, k', hplace, hk', hchildren⟩ := ih
    have hnot : ¬(branch f c (front ++ [last])).Takes n :=
      mt (Container.fits_iff_takes f c (front ++ [last]) n).mpr (Bool.eq_false_iff.mp hfits)
    refine ⟨front.length :: place, k, k',
      hplace.below hgrows.isContainer hgrows.kind_ne_document hnot, ?_, hchildren⟩
    rw [at?_concat]
    exact hk'

end Node

end LiveMarkdown
