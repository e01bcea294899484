import Mathlib.Data.List.Infix
import LiveMarkdown.Proofs.Node.Preorder

/-!
# Nodes in their places

Equal nodes may stand in several places of a tree, so the nodes are listed with where they stand:
with the child indices that lead to them and with the nodes above them. There are two orders, a node
before the nodes below it and a node after them. In either of them each place of the tree is listed
once, and in the first the places are in lexicographic order.

## Main definitions

* `Visit`: a node where it stands.
* `WalkOrder`: whether a node is listed before the nodes below it or after them.
* `Node.visits`: the nodes of a tree, where they stand.

## Main results

* `Node.along?_concat_eq_some_iff`, `Node.mem_path_iff`: what the path to a place is made of.
* `Node.mem_visits_iff`: what is listed is what stands at a place, with the path to it.
* `Node.pairwise_place_visits_down`: on the way down the places are strictly increasing.
* `Node.nodup_place_visits`: each place is listed once.
-/

namespace LiveMarkdown

namespace Node

/-! ### Places and paths -/

section Paths

variable {f : NodeFlags} {c : Container} {children : List Node} {root child n m : Node} {i : Nat}
  {place : List Nat} {path : List Node}

theorem at?_cons (f : NodeFlags) (c : Container) (children : List Node) (i : Nat)
    (place : List Nat) :
    (branch f c children).at? (i :: place) = children[i]?.bind (·.at? place) := rfl

/-- A place below a container is below one of its children. -/
theorem exists_of_at?_cons (h : (branch f c children).at? (i :: place) = some m) :
    ∃ child, children[i]? = some child ∧ child.at? place = some m :=
  Option.bind_eq_some_iff.mp h

/-- The path to the root is the root. -/
theorem along?_nil_eq_some_iff : n.along? [] = some (path ++ [m]) ↔ path = [] ∧ m = n := by
  rw [along?, Option.some_inj]
  constructor
  · intro h
    simpa [List.append_eq_singleton_iff] using h.symm
  · rintro ⟨rfl, rfl⟩
    rfl

/-- The path to a place below a container goes through one of its children. -/
theorem along?_cons_eq_some_iff :
    (branch f c children).along? (i :: place) = some path ↔
      ∃ child rest, children[i]? = some child ∧ child.along? place = some rest ∧
        path = branch f c children :: rest := by
  rw [along?, show (branch f c children).children = children from rfl]
  cases children[i]? with
  | none => simp
  | some child =>
    rw [Option.map_eq_some_iff]
    constructor
    · rintro ⟨rest, hrest, rfl⟩
      exact ⟨child, rest, rfl, hrest, rfl⟩
    · rintro ⟨_, rest, ⟨⟩, hrest, rfl⟩
      exact ⟨rest, hrest, rfl⟩

/-- A path ends with the node that it leads to. -/
theorem ne_nil_of_along? (h : n.along? place = some path) : path ≠ [] := by
  cases place with
  | nil => rintro rfl; cases h
  | cons i place =>
    cases n with
    | leaf => cases h
    | branch f c children =>
      obtain ⟨child, rest, -, -, rfl⟩ := along?_cons_eq_some_iff.mp h
      exact List.cons_ne_nil _ _

/-- The prefixes of a place behind the empty one start with its first index. -/
theorem exists_prefix_cons_iff {p : List Nat → Prop} :
    (∃ q, q <+: i :: place ∧ q ≠ [] ∧ p q) ↔ ∃ q, q <+: place ∧ p (i :: q) := by
  constructor
  · rintro ⟨q, hprefix, hne, hp⟩
    rcases List.prefix_cons_iff.mp hprefix with rfl | ⟨q, rfl, hq⟩
    · exact absurd rfl hne
    · exact ⟨q, hq, hp⟩
  · rintro ⟨q, hq, hp⟩
    exact ⟨i :: q, List.prefix_cons_iff.mpr (.inr ⟨q, rfl, hq⟩), List.cons_ne_nil _ _, hp⟩

theorem at?_cons_of_getElem? (h : children[i]? = some child) (place : List Nat) :
    (branch f c children).at? (i :: place) = child.at? place := by
  rw [at?_cons, h, Option.bind_some]

/-- The nodes on a path are those at the prefixes of its place. -/
theorem mem_path_iff (h : root.along? place = some path) :
    m ∈ path ↔ ∃ q, q <+: place ∧ root.at? q = some m := by
  induction place generalizing root path with
  | nil =>
    obtain rfl := Option.some.inj h
    simp [List.prefix_nil, at?, eq_comm]
  | cons i place ih =>
    cases root with
    | leaf => cases h
    | branch f c children =>
      obtain ⟨child, rest, hchild, hrest, rfl⟩ := along?_cons_eq_some_iff.mp h
      rw [List.mem_cons, ih hrest]
      constructor
      · rintro (rfl | ⟨q, hq, hm⟩)
        · exact ⟨[], List.nil_prefix, rfl⟩
        · exact ⟨i :: q, List.prefix_cons_iff.mpr (.inr ⟨q, rfl, hq⟩),
            (at?_cons_of_getElem? hchild q).trans hm⟩
      · rintro ⟨q, hprefix, hm⟩
        rcases List.prefix_cons_iff.mp hprefix with rfl | ⟨q, rfl, hq⟩
        · exact .inl (Option.some.inj hm).symm
        · exact .inr ⟨q, hq, (at?_cons_of_getElem? hchild q).symm.trans hm⟩

/-- The nodes on a path behind the root are those at the prefixes of its place that lead
somewhere. -/
theorem mem_tail_path_iff (h : root.along? place = some path) :
    m ∈ path.tail ↔ ∃ q, q <+: place ∧ q ≠ [] ∧ root.at? q = some m := by
  cases place with
  | nil =>
    obtain rfl := Option.some.inj h
    simp [List.prefix_nil]
  | cons i place =>
    cases root with
    | leaf => cases h
    | branch f c children =>
      obtain ⟨child, rest, hchild, hrest, rfl⟩ := along?_cons_eq_some_iff.mp h
      rw [List.tail_cons, exists_prefix_cons_iff, mem_path_iff hrest]
      simp only [at?_cons_of_getElem? hchild]

/-- A path that is longer by one index leads to a child. -/
theorem along?_concat_eq_some_iff :
    root.along? (place ++ [i]) = some (path ++ [m]) ↔
      root.along? place = some path ∧ root.at? (place ++ [i]) = some m := by
  induction place generalizing root path with
  | nil =>
    rw [List.nil_append, along?, along?, at?]
    cases root.children[i]? with
    | none => simp
    | some child =>
      have hcons : [root] ++ [child] = path ++ [m] ↔ [root] = path ∧ child = m :=
        List.append_singleton_inj
      simpa [along?, at?] using hcons
  | cons j place ih =>
    cases root with
    | leaf => simp [along?, children]
    | branch f c children =>
      rw [List.cons_append, along?_cons_eq_some_iff, along?_cons_eq_some_iff]
      constructor
      · rintro ⟨child, rest, hchild, hrest, hcons⟩
        obtain ⟨front, last, rfl⟩ :=
          (List.eq_nil_or_concat' rest).resolve_left (ne_nil_of_along? hrest)
        rw [← List.cons_append] at hcons
        obtain ⟨rfl, rfl⟩ := List.append_singleton_inj.mp hcons
        obtain ⟨hfront, hlast⟩ := ih.mp hrest
        exact ⟨⟨child, front, hchild, hfront, rfl⟩, (at?_cons_of_getElem? hchild _).trans hlast⟩
      · rintro ⟨⟨child, front, hchild, hfront, rfl⟩, hlast⟩
        rw [at?_cons_of_getElem? hchild] at hlast
        exact ⟨child, front ++ [m], hchild, ih.mpr ⟨hfront, hlast⟩, rfl⟩

/-- A path leads to the node at its place. -/
theorem at?_of_along? (h : root.along? place = some (path ++ [m])) : root.at? place = some m := by
  obtain rfl | ⟨front, i, rfl⟩ := List.eq_nil_or_concat' place
  · obtain ⟨-, rfl⟩ := along?_nil_eq_some_iff.mp h
    rfl
  · exact (along?_concat_eq_some_iff.mp h).2

/-- There is a path to every place of a tree. -/
theorem exists_along?_of_at? (h : root.at? place = some m) :
    ∃ path, root.along? place = some (path ++ [m]) := by
  induction place generalizing root with
  | nil =>
    obtain rfl := Option.some.inj h
    exact ⟨[], rfl⟩
  | cons i place ih =>
    cases root with
    | leaf => cases h
    | branch f c children =>
      obtain ⟨child, hchild, hm⟩ := exists_of_at?_cons h
      obtain ⟨path, hpath⟩ := ih hm
      exact ⟨branch f c children :: path,
        along?_cons_eq_some_iff.mpr ⟨child, _, hchild, hpath, rfl⟩⟩

end Paths

end Node

/-! ### The nodes of a tree, where they stand -/

/-- A node where it stands in a tree. -/
structure Visit where
  node : Node
  /-- The nodes above it, the nearest first. -/
  above : List Node
  /-- The child indices that lead to it from the root. -/
  place : List Nat
  deriving Repr

/-- The parent of the node. The root has none. -/
def Visit.parent? (w : Visit) : Option Node := w.above.head?

/-- Whether a node is listed before the nodes below it, or after them. -/
inductive WalkOrder where
  | down
  | up
  deriving DecidableEq, Repr

/-- A node and what is listed below it, in order. -/
def WalkOrder.arrange : WalkOrder → Visit → List Visit → List Visit
  | down, w, below => w :: below
  | up, w, below => below ++ [w]

theorem WalkOrder.arrange_perm (order : WalkOrder) (w : Visit) (below : List Visit) :
    (order.arrange w below).Perm (w :: below) := by
  cases order with
  | down => exact .refl _
  | up => exact List.perm_append_singleton w below

namespace Node

mutual

/-- The nodes of a tree whose root stands at the given place below the given nodes. -/
def visitsFrom (order : WalkOrder) (place : List Nat) (above : List Node) : Node → List Visit
  | leaf f l => order.arrange ⟨leaf f l, above, place⟩ []
  | branch f c children =>
    order.arrange ⟨branch f c children, above, place⟩
      (visitsAmong order place (branch f c children :: above) 0 children)

/-- The nodes of siblings from the given index on, whose parent stands at the given place. -/
def visitsAmong (order : WalkOrder) (place : List Nat) (above : List Node) (index : Nat) :
    List Node → List Visit
  | [] => []
  | n :: ns =>
    visitsFrom order (place ++ [index]) above n ++ visitsAmong order place above (index + 1) ns

end

/-- The nodes of a tree, where they stand. -/
def visits (order : WalkOrder) (root : Node) : List Visit :=
  visitsFrom order [] [] root

variable {order : WalkOrder} {place : List Nat} {above : List Node} {index : Nat} {w : Visit}

/-! ### What is listed -/

/-- On the way down the root comes first, and the nodes below it follow. -/
theorem visitsFrom_down_eq (place : List Nat) (above : List Node) (n : Node) :
    visitsFrom .down place above n =
      ⟨n, above, place⟩ :: visitsAmong .down place (n :: above) 0 n.children := by
  cases n with
  | leaf => rfl
  | branch => rw [visitsFrom]; rfl

theorem mem_visitsFrom_leaf {f : NodeFlags} {l : Leaf} :
    w ∈ visitsFrom order place above (leaf f l) ↔ w = ⟨leaf f l, above, place⟩ := by
  rw [visitsFrom, (order.arrange_perm _ _).mem_iff, List.mem_singleton]

theorem mem_visitsFrom_branch {f : NodeFlags} {c : Container} {children : List Node} :
    w ∈ visitsFrom order place above (branch f c children) ↔
      w = ⟨branch f c children, above, place⟩ ∨
        w ∈ visitsAmong order place (branch f c children :: above) 0 children := by
  rw [visitsFrom, (order.arrange_perm _ _).mem_iff, List.mem_cons]

theorem mem_visitsAmong_iff {ns : List Node} :
    w ∈ visitsAmong order place above index ns ↔
      ∃ i n, ns[i]? = some n ∧ w ∈ visitsFrom order (place ++ [index + i]) above n := by
  induction ns generalizing index with
  | nil => simp [visitsAmong]
  | cons n ns ih =>
    rw [visitsAmong, List.mem_append, ih]
    constructor
    · rintro (hw | ⟨i, m, hm, hw⟩)
      · exact ⟨0, n, rfl, hw⟩
      · exact ⟨i + 1, m, hm, by rwa [Nat.add_assoc, Nat.add_comm 1] at hw⟩
    · rintro ⟨_ | i, m, hm, hw⟩
      · obtain rfl := Option.some.inj hm
        exact .inl hw
      · exact .inr ⟨i, m, hm, by rwa [Nat.add_assoc, Nat.add_comm 1]⟩

mutual

/-- What is listed is what stands at a place of the tree, with the nodes on the path to it. -/
theorem mem_visitsFrom_iff : (n : Node) → (place : List Nat) → (above : List Node) → {w : Visit} →
    (w ∈ visitsFrom order place above n ↔
      ∃ q path m, n.along? q = some (path ++ [m]) ∧ w = ⟨m, path.reverse ++ above, place ++ q⟩)
  | leaf f l, place, above, w => by
    rw [mem_visitsFrom_leaf]
    constructor
    · rintro rfl
      exact ⟨[], [], leaf f l, rfl, by rw [List.append_nil]; rfl⟩
    · rintro ⟨_ | ⟨i, q⟩, path, m, hpath, rfl⟩
      · obtain ⟨rfl, rfl⟩ := along?_nil_eq_some_iff.mp hpath
        rw [List.append_nil]
        rfl
      · cases hpath
  | branch f c children, place, above, w => by
    rw [mem_visitsFrom_branch, mem_visitsAmong_iff]
    have hplace : ∀ (i : Nat) (q : List Nat), place ++ [0 + i] ++ q = place ++ i :: q := by
      intro i q
      rw [Nat.zero_add, List.append_assoc, List.singleton_append]
    have habove : ∀ path : List Node, path.reverse ++ branch f c children :: above =
        (branch f c children :: path).reverse ++ above := by
      intro path
      rw [List.reverse_cons, List.append_assoc, List.singleton_append]
    constructor
    · rintro (rfl | ⟨i, n, hn, hw⟩)
      · exact ⟨[], [], branch f c children, rfl, by rw [List.append_nil]; rfl⟩
      · obtain ⟨q, path, m, hpath, rfl⟩ :=
          (mem_visitsFrom_iff_of_mem children n (List.mem_of_getElem? hn) _ _).mp hw
        refine ⟨i :: q, branch f c children :: path, m, ?_, by rw [hplace, habove]⟩
        exact along?_cons_eq_some_iff.mpr ⟨n, _, hn, hpath, rfl⟩
    · rintro ⟨_ | ⟨i, q⟩, path, m, hpath, rfl⟩
      · obtain ⟨rfl, rfl⟩ := along?_nil_eq_some_iff.mp hpath
        rw [List.append_nil]
        exact .inl rfl
      · obtain ⟨n, rest, hn, hrest, hcons⟩ := along?_cons_eq_some_iff.mp hpath
        refine .inr ⟨i, n, hn,
          (mem_visitsFrom_iff_of_mem children n (List.mem_of_getElem? hn) _ _).mpr ?_⟩
        cases path with
        | nil => exact absurd (List.cons.inj hcons).2.symm (ne_nil_of_along? hrest)
        | cons k path =>
          obtain ⟨rfl, rfl⟩ := List.cons.inj hcons
          exact ⟨q, path, m, hrest, by rw [hplace, habove]⟩

theorem mem_visitsFrom_iff_of_mem : (ns : List Node) → ∀ n ∈ ns,
    ∀ (place : List Nat) (above : List Node) {w : Visit}, (w ∈ visitsFrom order place above n ↔
      ∃ q path m, n.along? q = some (path ++ [m]) ∧ w = ⟨m, path.reverse ++ above, place ++ q⟩)
  | [] => List.forall_mem_nil _
  | n :: ns => List.forall_mem_cons.mpr ⟨mem_visitsFrom_iff n, mem_visitsFrom_iff_of_mem ns⟩

end

/-- The nodes from which the places among siblings are counted stand above all of them. -/
theorem exists_above_eq_append {ns : List Node}
    (hw : w ∈ visitsAmong order place above index ns) : ∃ nearer, w.above = nearer ++ above := by
  obtain ⟨i, n, -, hw⟩ := mem_visitsAmong_iff.mp hw
  obtain ⟨q, path, m, -, rfl⟩ := (mem_visitsFrom_iff n _ above).mp hw
  exact ⟨path.reverse, rfl⟩

/-- What is listed of a tree is what stands at a place in it. Above it stand the nodes on the path
to the place. -/
theorem mem_visits_iff {root : Node} :
    w ∈ root.visits order ↔ root.along? w.place = some (w.above.reverse ++ [w.node]) := by
  rw [visits, mem_visitsFrom_iff]
  constructor
  · rintro ⟨q, path, m, hpath, rfl⟩
    rw [List.append_nil, List.reverse_reverse]
    exact hpath
  · intro h
    exact ⟨w.place, w.above.reverse, w.node, h,
      by rw [List.append_nil, List.reverse_reverse, List.nil_append]⟩

/-! ### The order of the places -/

/-- Every place in a tree is below the place of its root. -/
theorem exists_place_eq_append {n : Node} (hw : w ∈ visitsFrom order place above n) :
    ∃ q, w.place = place ++ q := by
  obtain ⟨q, path, m, -, rfl⟩ := (mem_visitsFrom_iff n place above).mp hw
  exact ⟨q, rfl⟩

/-- Every place among siblings goes through the index of one of them. -/
theorem exists_place_eq_append_cons {ns : List Node}
    (hw : w ∈ visitsAmong order place above index ns) :
    ∃ i q, w.place = place ++ (index + i) :: q := by
  obtain ⟨i, n, -, hw⟩ := mem_visitsAmong_iff.mp hw
  obtain ⟨q, hq⟩ := exists_place_eq_append hw
  exact ⟨i, q, by rw [hq, List.append_assoc, List.singleton_append]⟩

mutual

/-- On the way down the places are strictly increasing. -/
theorem pairwise_place_visitsFrom_down (place : List Nat) (above : List Node) : (n : Node) →
    (visitsFrom .down place above n).Pairwise fun u w => u.place < w.place
  | leaf f l => by
    rw [visitsFrom]
    exact List.pairwise_singleton _ _
  | branch f c children => by
    rw [visitsFrom]
    refine List.pairwise_cons.mpr ⟨fun w hw => ?_,
      pairwise_place_visitsAmong_down place _ 0 children⟩
    obtain ⟨i, q, hq⟩ := exists_place_eq_append_cons hw
    have hlt : place ++ [] < place ++ (0 + i) :: q := List.append_left_lt (List.nil_lt_cons _ _)
    rw [List.append_nil] at hlt
    rwa [hq]

/-- Among siblings the places are strictly increasing on the way down. -/
theorem pairwise_place_visitsAmong_down (place : List Nat) (above : List Node) (index : Nat) :
    (ns : List Node) →
    (visitsAmong .down place above index ns).Pairwise fun u w => u.place < w.place
  | [] => List.Pairwise.nil
  | n :: ns => by
    rw [visitsAmong]
    refine List.pairwise_append.mpr ⟨pairwise_place_visitsFrom_down _ above n,
      pairwise_place_visitsAmong_down place above (index + 1) ns, fun u hu w hw => ?_⟩
    obtain ⟨p, hp⟩ := exists_place_eq_append hu
    obtain ⟨i, q, hq⟩ := exists_place_eq_append_cons hw
    have hindex : index :: p < (index + 1 + i) :: q := List.cons_lt_cons_iff.mpr (.inl (by omega))
    rw [hp, hq, List.append_assoc, List.singleton_append]
    exact List.append_left_lt hindex

end

/-- On the way down the places of a tree are strictly increasing: those that lead on from a place
come behind it, and the children of a node one after the other. -/
theorem pairwise_place_visits_down (root : Node) :
    (root.visits .down).Pairwise fun u w => u.place < w.place :=
  pairwise_place_visitsFrom_down [] [] root

mutual

/-- Both orders list the same. -/
theorem visitsFrom_perm_down (place : List Nat) (above : List Node) : (n : Node) →
    (visitsFrom order place above n).Perm (visitsFrom .down place above n)
  | leaf f l => by
    rw [visitsFrom, visitsFrom]
    exact order.arrange_perm _ _
  | branch f c children => by
    rw [visitsFrom, visitsFrom]
    exact (order.arrange_perm _ _).trans ((visitsAmong_perm_down place _ 0 children).cons _)

theorem visitsAmong_perm_down (place : List Nat) (above : List Node) (index : Nat) :
    (ns : List Node) →
    (visitsAmong order place above index ns).Perm (visitsAmong .down place above index ns)
  | [] => .refl _
  | n :: ns => by
    rw [visitsAmong, visitsAmong]
    exact (visitsFrom_perm_down _ above n).append (visitsAmong_perm_down place above (index + 1) ns)

end

/-- Each place of a tree is listed once, whatever the order. -/
theorem nodup_place_visits (order : WalkOrder) (root : Node) :
    ((root.visits order).map Visit.place).Nodup := by
  have hperm : (root.visits order).Perm (root.visits .down) := visitsFrom_perm_down [] [] root
  rw [(hperm.map Visit.place).nodup_iff, List.Nodup, List.pairwise_map]
  refine (pairwise_place_visits_down root).imp fun {u w} hlt heq => ?_
  rw [heq] at hlt
  exact List.lt_irrefl _ hlt

mutual

theorem map_node_visitsFrom_down (place : List Nat) (above : List Node) : (n : Node) →
    (visitsFrom .down place above n).map Visit.node = n.preorder
  | leaf f l => rfl
  | branch f c children => by
    rw [visitsFrom, WalkOrder.arrange, List.map_cons, map_node_visitsAmong_down place _ 0 children,
      preorder]

theorem map_node_visitsAmong_down (place : List Nat) (above : List Node) (index : Nat) :
    (ns : List Node) → (visitsAmong .down place above index ns).map Visit.node = preorderList ns
  | [] => rfl
  | n :: ns => by
    rw [visitsAmong, List.map_append, map_node_visitsFrom_down _ above n,
      map_node_visitsAmong_down place above (index + 1) ns, preorderList]

end

/-- On the way down the nodes are in document order. -/
theorem map_node_visits_down (root : Node) : (root.visits .down).map Visit.node = root.preorder :=
  map_node_visitsFrom_down [] [] root

end Node

end LiveMarkdown
