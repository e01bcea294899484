import LiveMarkdown.Proofs.Graft.Placement
import LiveMarkdown.Proofs.Node.Flags
import LiveMarkdown.Proofs.Node.Preorder

/-!
# Grafting and the marks of speculative nodes

Grafting changes no flags of what is there, and what it makes is only marked as made up. So the
marks of speculative nodes that a document bears are those that it had and those of the node that is
taken in. A node that joins the last child of the document is the exception: its children come
along, its own mark does not.

## Main definitions

* `Node.BearsMark`: some node of a tree is marked as speculative.

## Main results

* `Node.unflagged_iff`: a tree without flags, node by node.
* `Document.bearsMark_append`: the marks after a node has been appended.
-/

namespace LiveMarkdown

namespace Node

/-! ### Flags, node by node -/

theorem eraseFlagsList_eq_map (ns : List Node) : eraseFlagsList ns = ns.map eraseFlags := by
  induction ns with
  | nil => rfl
  | cons n ns ih => rw [eraseFlagsList, ih, List.map_cons]

theorem unflagged_leaf (f : NodeFlags) (l : Leaf) : (leaf f l).Unflagged ↔ f = .none := by
  simp [Unflagged, eraseFlags, eq_comm]

theorem unflagged_branch (f : NodeFlags) (c : Container) (ns : List Node) :
    (branch f c ns).Unflagged ↔ f = .none ∧ ∀ n ∈ ns, n.Unflagged := by
  simp only [Unflagged, eraseFlags, eraseFlagsList_eq_map, branch.injEq, true_and,
    eq_comm (a := NodeFlags.none)]
  refine and_congr_right fun _ => ?_
  induction ns with
  | nil => simp
  | cons n ns ih => rw [List.map_cons, List.cons.injEq, ih, List.forall_mem_cons]

mutual

/-- A tree carries no flags exactly if none of its nodes does. -/
theorem unflagged_iff : (n : Node) → (n.Unflagged ↔ ∀ m ∈ n.preorder, m.flags = .none)
  | leaf f l => by rw [unflagged_leaf, preorder_leaf, List.forall_mem_singleton]; rfl
  | branch f c ns => by
    rw [unflagged_branch, preorder, List.forall_mem_cons, forall_unflagged_iff ns]
    rfl

/-- Siblings carry no flags exactly if none of their nodes does. -/
theorem forall_unflagged_iff :
    (ns : List Node) → ((∀ n ∈ ns, n.Unflagged) ↔ ∀ m ∈ preorderList ns, m.flags = .none)
  | [] => by simp [preorderList]
  | n :: ns => by
    rw [List.forall_mem_cons, preorderList, List.forall_mem_append, unflagged_iff n,
      forall_unflagged_iff ns]

end

/-! ### Marks -/

/-- Some node of a tree is marked as speculative. -/
def BearsMark (n : Node) : Prop := ∃ m ∈ n.preorder, m.hasFlag .speculative = true

instance (n : Node) : Decidable n.BearsMark :=
  inferInstanceAs (Decidable (∃ m ∈ n.preorder, m.hasFlag .speculative = true))

variable {n m w last grown joined : Node}

theorem bearsMark_branch (f : NodeFlags) (c : Container) (ns : List Node) :
    (branch f c ns).BearsMark ↔ f.meets .speculative = true ∨ ∃ n ∈ ns, n.BearsMark := by
  simp only [BearsMark, preorder_branch, List.mem_cons, List.mem_flatMap, exists_eq_or_imp,
    hasFlag, flags]
  refine or_congr_right ⟨?_, ?_⟩
  · rintro ⟨m, ⟨n, hn, hm⟩, hmark⟩
    exact ⟨n, hn, m, hm, hmark⟩
  · rintro ⟨n, hn, m, hm, hmark⟩
    exact ⟨m, ⟨n, hn, hm⟩, hmark⟩

theorem Unflagged.not_bearsMark (h : n.Unflagged) : ¬ n.BearsMark := by
  rintro ⟨m, hm, hmark⟩
  rw [hasFlag, (unflagged_iff n).mp h m hm] at hmark
  exact absurd hmark (by decide)

theorem Unflagged.of_mem_children (h : n.Unflagged) (hm : m ∈ n.children) : m.Unflagged := by
  cases n with
  | leaf f l => cases hm
  | branch f c ns => exact ((unflagged_branch f c ns).mp h).2 m hm

/-- A mark on the root of a tree without flags is the only one. -/
theorem Unflagged.bearsMark_addFlags (h : n.Unflagged) : (n.addFlags .speculative).BearsMark := by
  refine ⟨n.addFlags .speculative, ?_, h.hasFlag_speculative_addFlags⟩
  cases n <;> simp [addFlags, withFlags]

theorem Grows.bearsMark_iff (h : Grows n m grown) :
    grown.BearsMark ↔ m.BearsMark ∨ n.BearsMark := by
  induction h with
  | here => simp [bearsMark_branch, or_and_right, exists_or, or_assoc]
  | deeper _ _ _ ih => simp [bearsMark_branch, or_and_right, exists_or, or_assoc, ih]

/-- A node that joins another one loses its own mark. Those below it are kept. -/
theorem Joins.bearsMark_iff (h : last.Joins n joined) :
    joined.BearsMark ↔ last.BearsMark ∨ ∃ k ∈ n.children, k.BearsMark := by
  cases h <;> simp [bearsMark_branch, children, or_and_right, exists_or, or_assoc]

/-- The container that is made for a part is not speculative itself. -/
theorem bearsMark_of_wrapper? (h : n.wrapper? = some w) : w.BearsMark ↔ n.BearsMark := by
  unfold wrapper? at h
  split at h <;> simp only [Option.some.injEq, reduceCtorEq] at h
  all_goals
    subst h
    simp only [markSynthetic, addFlags, list, table, tableRow, ofContainer, flags, withFlags]
    rw [bearsMark_branch, or_iff_right (by decide)]
    simp

end Node

namespace Document

variable {d grown : Document} {n : Node} {diagnostics : List Diagnostic}

theorem bearsMark_concat (d : Document) (ns : List Node) :
    (toNode { d with children := d.children ++ ns }).BearsMark ↔
      d.toNode.BearsMark ∨ ∃ n ∈ ns, n.BearsMark := by
  simp [toNode, Node.bearsMark_branch, or_and_right, exists_or, or_assoc]

/-- A document whose last child is exchanged for another one. -/
theorem bearsMark_of_exchange {front : List Node} {last new : Node} {p : Prop}
    (hchildren : d.children = front ++ [last]) (hnew : new.BearsMark ↔ last.BearsMark ∨ p) :
    (toNode { d with children := front ++ [new] }).BearsMark ↔ d.toNode.BearsMark ∨ p := by
  simp [toNode, Node.bearsMark_branch, hchildren, or_and_right, exists_or, or_assoc, hnew]

theorem TakesIn.bearsMark_iff (h : d.TakesIn n grown diagnostics) :
    grown.toNode.BearsMark ↔ d.toNode.BearsMark ∨ n.BearsMark := by
  induction h with
  | atRoot | atEnd => simp [bearsMark_concat]
  | within _ hchildren hgrown => exact bearsMark_of_exchange hchildren hgrown.bearsMark_iff
  | wrapped _ hw _ ih => rw [ih, Node.bearsMark_of_wrapper? hw]

/-- Appending keeps all marks, but for the one of a node that joins the last child of the
document. -/
theorem bearsMark_append (d : Document) (n : Node) :
    (d.append n).1.toNode.BearsMark ↔
      d.toNode.BearsMark ∨
        if d.joinedLast? n = none then n.BearsMark else ∃ k ∈ n.children, k.BearsMark := by
  rcases d.append_cases n with
    ⟨front, last, joined, hchildren, hjoined, hjoins, happend⟩ | ⟨hjoined, htaken⟩
  · rw [happend, if_neg (by simp [hjoined])]
    exact bearsMark_of_exchange hchildren hjoins.bearsMark_iff
  · rw [if_pos hjoined]
    exact htaken.bearsMark_iff

end Document

end LiveMarkdown
