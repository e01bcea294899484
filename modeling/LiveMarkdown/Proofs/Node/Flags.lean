import LiveMarkdown.Node.Equality

/-!
# Trees up to flags

Two trees have equal content exactly when they become equal once all flags are erased. A tree that
carries no flag at any depth is its own erasure, so among such trees equal content is equality. The
mark of a speculative node sits on the root of its tree alone: it can be read off there, and taking
it into account the tree is still determined by its content.

## Main definitions

* `Node.eraseFlags`: the tree without any flags.
* `Node.Unflagged`: no node of the tree carries a flag.

## Main results

* `Node.sameContent_iff_eraseFlags_eq`: equal content is equality up to flags.
* `Node.Unflagged.eq_of_sameContent`: trees without flags are determined by their content.
-/

namespace LiveMarkdown.Node

mutual

/-- The tree without any flags. -/
def eraseFlags : Node → Node
  | leaf _ l => leaf .none l
  | branch _ c children => branch .none c (eraseFlagsList children)

/-- The siblings without any flags. -/
def eraseFlagsList : List Node → List Node
  | [] => []
  | n :: ns => eraseFlags n :: eraseFlagsList ns

end

mutual

/-- Equal content is equality up to flags. -/
theorem sameContent_iff_eraseFlags_eq :
    (n m : Node) → (n.sameContent m = true ↔ n.eraseFlags = m.eraseFlags)
  | leaf _ _, leaf _ _ => by simp [sameContent, eraseFlags]
  | leaf _ _, branch _ _ _ => by simp [sameContent, eraseFlags]
  | branch _ _ _, leaf _ _ => by simp [sameContent, eraseFlags]
  | branch _ c ns, branch _ d ms => by
    simp [sameContent, eraseFlags, sameContentList_iff_eraseFlagsList_eq ns ms]

/-- Siblings have equal content, one by one, exactly when they are equal up to flags. -/
theorem sameContentList_iff_eraseFlagsList_eq :
    (ns ms : List Node) → (sameContentList ns ms = true ↔ eraseFlagsList ns = eraseFlagsList ms)
  | [], [] => by simp [sameContentList, eraseFlagsList]
  | [], _ :: _ => by simp [sameContentList, eraseFlagsList]
  | _ :: _, [] => by simp [sameContentList, eraseFlagsList]
  | n :: ns, m :: ms => by
    simp [sameContentList, eraseFlagsList, sameContent_iff_eraseFlags_eq n m,
      sameContentList_iff_eraseFlagsList_eq ns ms]

end

/-- No node of the tree carries a flag. -/
def Unflagged (n : Node) : Prop := n.eraseFlags = n

theorem eraseFlags_withFlags (f : NodeFlags) (n : Node) :
    (n.withFlags f).eraseFlags = n.eraseFlags := by
  cases n <;> rfl

theorem sameContent_addFlags_left (f : NodeFlags) (n m : Node) :
    (n.addFlags f).sameContent m = n.sameContent m := by
  rw [Bool.eq_iff_iff, sameContent_iff_eraseFlags_eq, sameContent_iff_eraseFlags_eq, addFlags,
    eraseFlags_withFlags]

namespace Unflagged

variable {n m : Node}

theorem flags_eq (h : n.Unflagged) : n.flags = .none := by
  rw [Unflagged] at h
  rw [← h]
  cases n <;> rfl

theorem hasFlag_speculative (h : n.Unflagged) : n.hasFlag .speculative = false := by
  rw [hasFlag, h.flags_eq]
  rfl

/-- The mark that is put on a tree without flags is the only one on its root. -/
theorem hasFlag_speculative_addFlags (h : n.Unflagged) :
    (n.addFlags .speculative).hasFlag .speculative = true := by
  rw [hasFlag, addFlags, flags_withFlags, h.flags_eq]
  rfl

/-- Trees without flags are determined by their content. -/
theorem eq_of_sameContent (hn : n.Unflagged) (hm : m.Unflagged)
    (h : n.sameContent m = true) : n = m := by
  rw [sameContent_iff_eraseFlags_eq] at h
  calc n = n.eraseFlags := hn.symm
    _ = m.eraseFlags := h
    _ = m := hm

end Unflagged

end LiveMarkdown.Node
