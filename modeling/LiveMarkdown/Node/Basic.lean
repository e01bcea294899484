import LiveMarkdown.Completion.Construct
import LiveMarkdown.Node.Kind

/-!
# Document trees

A document is a tree of nodes. A node is either a leaf, which carries text or stands for a mark, or
a container with a list of children. Every node carries flags that say how it came about; they are
no part of its content.

## Main definitions

* `NodeFlags`: a set of flags, among them `synthetic` and `speculative`.
* `Leaf`, `Container`: what nodes without and with children carry.
* `Node`: the tree.
* `Node.kind`, `Node.flags`, `Node.children`, `Node.withChildren`, `Node.lastChild?`: access.
* `Document`: a node that is known to be the root of a document.
-/

namespace LiveMarkdown

/-- A set of flags, kept as bits. Bits without a meaning of their own are kept as they are. -/
structure NodeFlags where
  /-- The bits of the set. -/
  bits : Nat
  deriving DecidableEq, Repr

namespace NodeFlags

/-- No flag. -/
def none : NodeFlags := ⟨0⟩

/-- The node was made to hold another one, it does not stand in the text. -/
def synthetic : NodeFlags := ⟨1⟩

/-- The node depends on closers that completion added, and may change with further text. -/
def speculative : NodeFlags := ⟨2⟩

/-- The union of two sets. -/
def union (f g : NodeFlags) : NodeFlags := ⟨f.bits ||| g.bits⟩

/-- Whether two sets have a flag in common. -/
def meets (f g : NodeFlags) : Bool := f.bits &&& g.bits != 0

end NodeFlags

/-- Whether the items of a list are counted. -/
inductive ListType where
  | bullet
  | ordered
  deriving DecidableEq, Repr

/-- What ends the number of an ordered item. -/
inductive ListDelimiter where
  | period
  | paren
  deriving DecidableEq, Repr

/-- The alignment of a table column. -/
inductive Alignment where
  | none
  | left
  | center
  | right
  deriving DecidableEq, Repr

/-- The attributes of a list. -/
structure ListAttributes where
  listType : ListType := .bullet
  start : Nat := 1
  delimiter : ListDelimiter := .period
  bulletChar : String := "-"
  tight : Bool := true
  isTaskList : Bool := false
  deriving DecidableEq, Repr

/-- The attributes of a list item. -/
structure ItemAttributes where
  listType : ListType := .bullet
  start : Nat := 1
  bulletChar : String := "-"
  deriving DecidableEq, Repr

/-- The attributes of a table. The counters are kept beside the rows they count. -/
structure TableAttributes where
  alignments : List Alignment
  numColumns : Nat
  numRows : Nat
  deriving DecidableEq, Repr

/-- The content of a code block. -/
structure CodeBlock where
  fenced : Bool
  /-- The character of the fence; an indented block has none. -/
  fenceMark : Option FenceMark
  fenceLength : Nat
  info : String
  literal : String
  deriving DecidableEq, Repr

/-- What a node without children carries. -/
inductive Leaf where
  | frontMatter (literal : String)
  | codeBlock (block : CodeBlock)
  | htmlBlock (literal : String)
  | thematicBreak
  | mathBlock (literal : String)
  | text (literal : String)
  | code (numBackticks : Nat) (literal : String)
  | htmlInline (literal : String)
  | softBreak
  | lineBreak
  | math (displayMath : Bool) (literal : String)
  | footnoteReference (name : String)
  | raw (literal : String)
  deriving DecidableEq, Repr

/-- What a node with children carries besides them. -/
inductive Container where
  | document
  | paragraph
  | heading (level : Nat) (setext : Bool)
  | blockQuote
  | list (attributes : ListAttributes)
  | table (attributes : TableAttributes)
  | descriptionList
  | footnoteDefinition (name : String)
  | listItem (attributes : ItemAttributes)
  | taskItem (checked : Bool) (marker : String)
  | tableRow (header : Bool)
  | tableCell
  | descriptionItem
  | descriptionTerm
  | descriptionDetails
  | emph
  | strong
  | strikethrough
  | link (url title : String)
  | image (url title : String)
  deriving DecidableEq, Repr

/-- The kind of a leaf. -/
def Leaf.kind : Leaf → NodeKind
  | frontMatter _ => .frontMatter
  | codeBlock _ => .codeBlock
  | htmlBlock _ => .htmlBlock
  | thematicBreak => .thematicBreak
  | mathBlock _ => .mathBlock
  | text _ => .text
  | code _ _ => .code
  | htmlInline _ => .htmlInline
  | softBreak => .softBreak
  | lineBreak => .lineBreak
  | math _ _ => .math
  | footnoteReference _ => .footnoteReference
  | raw _ => .raw

/-- The kind of a container. -/
def Container.kind : Container → NodeKind
  | document => .document
  | paragraph => .paragraph
  | heading _ _ => .heading
  | blockQuote => .blockQuote
  | list _ => .list
  | table _ => .table
  | descriptionList => .descriptionList
  | footnoteDefinition _ => .footnoteDefinition
  | listItem _ => .listItem
  | taskItem _ _ => .taskItem
  | tableRow _ => .tableRow
  | tableCell => .tableCell
  | descriptionItem => .descriptionItem
  | descriptionTerm => .descriptionTerm
  | descriptionDetails => .descriptionDetails
  | emph => .emph
  | strong => .strong
  | strikethrough => .strikethrough
  | link _ _ => .link
  | image _ _ => .image

/-- The leaf with another literal; a leaf without one stays as it is. -/
def Leaf.withLiteral (s : String) : Leaf → Leaf
  | frontMatter _ => frontMatter s
  | codeBlock b => codeBlock { b with literal := s }
  | htmlBlock _ => htmlBlock s
  | mathBlock _ => mathBlock s
  | text _ => text s
  | code n _ => code n s
  | htmlInline _ => htmlInline s
  | math d _ => math d s
  | raw _ => raw s
  | leaf => leaf

/-- A document tree. -/
inductive Node where
  | leaf (flags : NodeFlags) (leaf : Leaf)
  | branch (flags : NodeFlags) (container : Container) (children : List Node)
  deriving Repr

namespace Node

/-- The kind of a node. -/
def kind : Node → NodeKind
  | leaf _ l => l.kind
  | branch _ c _ => c.kind

/-- The flags of a node. -/
def flags : Node → NodeFlags
  | leaf f _ => f
  | branch f _ _ => f

/-- The node with other flags. -/
def withFlags (f : NodeFlags) : Node → Node
  | leaf _ l => leaf f l
  | branch _ c children => branch f c children

/-- The children of a node. A leaf has none. -/
def children : Node → List Node
  | leaf _ _ => []
  | branch _ _ children => children

/-- Whether a node is a container. -/
def isContainer : Node → Bool
  | leaf _ _ => false
  | branch _ _ _ => true

/-- The container with other children. A leaf stays as it is. -/
def withChildren (children : List Node) : Node → Node
  | leaf f l => leaf f l
  | branch f c _ => branch f c children

/-- The last child of a node. -/
def lastChild? (n : Node) : Option Node :=
  n.children.getLast?

/-- Whether a node has one of the given flags. -/
def hasFlag (n : Node) (f : NodeFlags) : Bool :=
  n.flags.meets f

/-- The node with flags added. -/
def addFlags (f : NodeFlags) (n : Node) : Node :=
  n.withFlags (n.flags.union f)

/-- The node, marked as made up. -/
def markSynthetic (n : Node) : Node :=
  n.addFlags .synthetic

/-- The node with another literal, if it has one. -/
def withLiteral (s : String) : Node → Node
  | leaf f l => leaf f (l.withLiteral s)
  | branch f c children => branch f c children

theorem kind_withFlags (f : NodeFlags) (n : Node) : (n.withFlags f).kind = n.kind := by
  cases n <;> rfl

theorem children_withFlags (f : NodeFlags) (n : Node) : (n.withFlags f).children = n.children := by
  cases n <;> rfl

theorem flags_withFlags (f : NodeFlags) (n : Node) : (n.withFlags f).flags = f := by
  cases n <;> rfl

end Node

/-- The root of a document. -/
structure Document where
  flags : NodeFlags
  children : List Node
  deriving Repr

namespace Document

/-- The document as a node. -/
def toNode (d : Document) : Node :=
  .branch d.flags .document d.children

/-- A document without content. -/
def empty : Document := ⟨.none, []⟩

/-- A document with the given nodes. -/
def ofNodes (nodes : List Node) : Document := ⟨.none, nodes⟩

/-- The document that a node is, if it is one. -/
def ofNode? : Node → Option Document
  | .branch f .document children => some ⟨f, children⟩
  | _ => none

end Document

end LiveMarkdown
