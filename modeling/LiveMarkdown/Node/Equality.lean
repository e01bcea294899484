import LiveMarkdown.Node.Basic

/-!
# Equal content

Two trees have equal content if they agree in everything but the flags of their nodes. This is the
equality by which a new parse is compared with an earlier one.

## Main definitions

* `Node.sameContent`: the test.
-/

namespace LiveMarkdown.Node

mutual

/-- Whether two trees agree in everything but flags. -/
def sameContent : Node → Node → Bool
  | leaf _ l, leaf _ m => l == m
  | branch _ c ns, branch _ d ms => c == d && sameContentList ns ms
  | _, _ => false

/-- Whether siblings agree one by one. -/
def sameContentList : List Node → List Node → Bool
  | [], [] => true
  | n :: ns, m :: ms => sameContent n m && sameContentList ns ms
  | _, _ => false

end

mutual

/-- A tree has the same content as itself. -/
theorem sameContent_refl : (n : Node) → sameContent n n = true
  | leaf _ _ => by simp [sameContent]
  | branch _ _ ns => by simp [sameContent, sameContentList_refl ns]

/-- Siblings have the same content as themselves. -/
theorem sameContentList_refl : (ns : List Node) → sameContentList ns ns = true
  | [] => rfl
  | n :: ns => by simp [sameContentList, sameContent_refl n, sameContentList_refl ns]

end

end LiveMarkdown.Node
