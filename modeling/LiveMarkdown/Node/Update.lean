import LiveMarkdown.Node.Query

/-!
# Updates

An update rebuilds a tree from the leaves up. A node is judged after its children have been updated,
so a container may be picked for what its children have become.

## Main definitions

* `Node.updateWhere`: the tree with every picked node replaced.
-/

namespace LiveMarkdown.Node

/-- Replaces a node if the selector picks it. -/
def replaceIf (s : NodeSelector) (update : Node → Node) (n : Node) : Node :=
  if s.picks n then update n else n

mutual

/-- The tree with every picked node replaced, children before parents. -/
def updateWhere (s : NodeSelector) (update : Node → Node) : Node → Node
  | leaf f l => replaceIf s update (leaf f l)
  | branch f c children => replaceIf s update (branch f c (updateWhereList s update children))

/-- The siblings with every picked node replaced. -/
def updateWhereList (s : NodeSelector) (update : Node → Node) : List Node → List Node
  | [] => []
  | n :: ns => updateWhere s update n :: updateWhereList s update ns

end

end LiveMarkdown.Node
