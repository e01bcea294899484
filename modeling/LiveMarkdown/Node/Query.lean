import LiveMarkdown.Node.Walk

/-!
# Queries

Nodes are found by a selector: a kind, or a test. A place in a tree is a list of child indices, and
a node is told apart from an equal one elsewhere by its place.

## Main definitions

* `NodeSelector`: what picks nodes.
* `Node.findAll`, `Node.findFirst?`: the picked nodes in document order.
* `Node.at?`, `Node.pathTo`, `Node.parentAt?`: places.
* `Node.rightmostPath`: the nodes down through each last child.
* `Node.textContent`: the text of a tree.
-/

namespace LiveMarkdown

/-- What picks nodes. -/
inductive NodeSelector where
  /-- The nodes of a kind. -/
  | ofKind (kind : NodeKind)
  /-- The nodes that pass a test. -/
  | ofTest (test : Node → Bool)

/-- Whether a selector picks a node. -/
def NodeSelector.picks : NodeSelector → Node → Bool
  | ofKind kind, n => n.kind == kind
  | ofTest test, n => test n

namespace Node

/-- The picked nodes of a tree, in document order. -/
def findAll (s : NodeSelector) (root : Node) : List Node :=
  ((root.walkDown (.ofGeneric fun _ _ => .goOn)).map Call.node).filter s.picks

/-- The first picked node of a tree in document order: the walk ends there. -/
def findFirst? (s : NodeSelector) (root : Node) : Option Node :=
  let calls := root.walkDown (.ofGeneric fun n _ => if s.picks n then .stop else .goOn)
  (calls.getLast?.map Call.node).filter s.picks

/-- The nodes from the root along the given child indices, if the tree has them all. -/
def along? : Node → List Nat → Option (List Node)
  | n, [] => some [n]
  | n, i :: place =>
    match n.children[i]? with
    | none => none
    | some child => (child.along? place).map (n :: ·)

/-- The node at a place. -/
def at? : Node → List Nat → Option Node
  | n, [] => some n
  | n, i :: place => n.children[i]?.bind (fun child => child.at? place)

/-- The nodes from the root to a place, both included. A node without a place in the tree, even an
equal one, is reached by no path. -/
def pathTo (root : Node) (place : Option (List Nat)) : List Node :=
  (place.bind root.along?).getD []

/-- The parent of the node at a place. The root has none. -/
def parentAt? (root : Node) (place : Option (List Nat)) : Option Node :=
  (root.pathTo place).dropLast.getLast?

mutual

/-- The root, its last child, the last child of that one, and so on. -/
def rightmostPath : Node → List Node
  | leaf f l => [leaf f l]
  | branch f c children => branch f c children :: rightmostPathList children

/-- The path down from the last of the siblings. -/
def rightmostPathList : List Node → List Node
  | [] => []
  | [n] => rightmostPath n
  | _ :: n :: ns => rightmostPathList (n :: ns)

end

/-- The text of a leaf. Breaks count as line feeds; front matter and footnote marks are no text. -/
def leafText : Leaf → String
  | .codeBlock b => b.literal
  | .htmlBlock s => s
  | .mathBlock s => s
  | .text s => s
  | .code _ s => s
  | .htmlInline s => s
  | .math _ s => s
  | .raw s => s
  | .softBreak => "\n"
  | .lineBreak => "\n"
  | .frontMatter _ => ""
  | .thematicBreak => ""
  | .footnoteReference _ => ""

mutual

/-- The text of a tree, in document order. -/
def textContent : Node → String
  | leaf _ l => leafText l
  | branch _ _ children => textContentList children

/-- The text of siblings. -/
def textContentList : List Node → String
  | [] => ""
  | n :: ns => textContent n ++ textContentList ns

end

end Node

end LiveMarkdown
