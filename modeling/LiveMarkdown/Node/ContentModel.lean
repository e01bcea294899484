import LiveMarkdown.Node.Basic

/-!
# Content model

Two classifications are kept apart: what a node is, as seen by a parent, and what it accepts as
children. A tree breaks the content model wherever a parent holds a child that it does not accept.
The direct children of a document are exempt, since the document takes in what fits nowhere else,
and a document inside another tree is never looked into.

## Main definitions

* `NodeCategory`, `ContentModel`: the two classifications, with `NodeKind.category` and
  `NodeKind.contentModel`.
* `NodeKind.accepts`: whether a kind may hold another.
* `Violation`, `Node.violations`: the pairs that break the content model.
-/

namespace LiveMarkdown

/-- What a node is, as seen by a parent. -/
inductive NodeCategory where
  | block
  | inline
  /-- A part of a particular container, such as a list item. -/
  | part
  /-- Foreign content, which is only passed through. -/
  | opaqueContent
  deriving DecidableEq, Repr

/-- What a node accepts as children. -/
inductive ContentModel where
  | root
  | block
  | inline
  | listContainer
  | itemContainer
  | tableContainer
  | rowContainer
  | cellContainer
  | descriptionListContainer
  | descriptionItemContainer
  | leaf
  deriving DecidableEq, Repr

/-- The name under which a category is reported. -/
def NodeCategory.name : NodeCategory → String
  | block => "block"
  | inline => "inline"
  | part => "part"
  | opaqueContent => "opaque"

/-- The name under which a content model is reported. -/
def ContentModel.name : ContentModel → String
  | root => "root"
  | block => "block"
  | inline => "inline"
  | listContainer => "list-container"
  | itemContainer => "item-container"
  | tableContainer => "table-container"
  | rowContainer => "row-container"
  | cellContainer => "cell-container"
  | descriptionListContainer => "description-list-container"
  | descriptionItemContainer => "description-item-container"
  | leaf => "leaf"

namespace NodeKind

/-- The category of a kind. -/
def category : NodeKind → NodeCategory
  | document => .opaqueContent
  | frontMatter | paragraph | heading | blockQuote | list | codeBlock | htmlBlock | thematicBreak
  | table | descriptionList | footnoteDefinition | mathBlock => .block
  | listItem | taskItem | tableRow | tableCell | descriptionItem | descriptionTerm
  | descriptionDetails => .part
  | text | code | emph | strong | strikethrough | link | image | htmlInline | softBreak | lineBreak
  | math | footnoteReference | raw => .inline

/-- The content model of a kind. -/
def contentModel : NodeKind → ContentModel
  | document => .root
  | blockQuote | footnoteDefinition | descriptionTerm | descriptionDetails => .block
  | listItem | taskItem => .itemContainer
  | paragraph | heading | emph | strong | strikethrough | link | image => .inline
  | list => .listContainer
  | table => .tableContainer
  | tableRow => .rowContainer
  | tableCell => .cellContainer
  | descriptionList => .descriptionListContainer
  | descriptionItem => .descriptionItemContainer
  | frontMatter | codeBlock | htmlBlock | thematicBreak | mathBlock | text | code | htmlInline
  | softBreak | lineBreak | math | footnoteReference | raw => .leaf

/-- Whether a node of one kind may hold a node of another. -/
def accepts (parent child : NodeKind) : Bool :=
  match parent.contentModel with
  | .root | .block | .itemContainer => child.category == .block
  | .inline | .cellContainer => child.category == .inline
  | .listContainer => child == .listItem || child == .taskItem
  | .tableContainer => child == .tableRow
  | .rowContainer => child == .tableCell
  | .descriptionListContainer => child == .descriptionItem
  | .descriptionItemContainer => child == .descriptionTerm || child == .descriptionDetails
  | .leaf => false

/-- The kinds that a kind accepts, in the order of the kinds. -/
def accepted (parent : NodeKind) : List NodeKind := all.filter parent.accepts

/-- The kinds that accept a kind, in the order of the kinds. -/
def acceptedBy (child : NodeKind) : List NodeKind := all.filter (accepts · child)

end NodeKind

/-- A parent that holds a child it does not accept. -/
structure Violation where
  parent : Node
  child : Node
  /-- The child indices that lead from the root of the tree to the child. -/
  place : List Nat
  deriving Repr

namespace Node

mutual

/-- The violations below a parent, whose place is given by its indices, nearest first. -/
def violationsBelow (place : List Nat) (permissive : Bool) : Node → List Violation
  | leaf _ _ => []
  | branch f c children => violationsAmong (branch f c children) place permissive 0 children

/-- The violations at and below the children of a parent from the given index on. -/
def violationsAmong (parent : Node) (place : List Nat) (permissive : Bool) (index : Nat) :
    List Node → List Violation
  | [] => []
  | child :: rest =>
    let here := index :: place
    let own :=
      if !permissive && !parent.kind.accepts child.kind then
        [Violation.mk parent child here.reverse]
      else []
    let below := if child.kind = .document then [] else violationsBelow here false child
    own ++ below ++ violationsAmong parent place permissive (index + 1) rest

end

/-- The pairs of parent and child that break the content model of a tree, in document order. -/
def violations (root : Node) : List Violation :=
  root.violationsBelow [] (root.kind = .document)

end Node

end LiveMarkdown
