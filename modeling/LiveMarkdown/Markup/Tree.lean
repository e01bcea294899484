import LiveMarkdown.Node.Basic
import LiveMarkdown.Value.Basic

/-!
# Markup trees

A Markdown text is read into a markup tree first. It is close to the text: references are not
resolved yet, line breaks are part of the text, and a node knows the place it has in the source.
Nodes of types that have no meaning for documents are kept, because definitions may stand below
them.

## Main definitions

* `Span`: a place in the source.
* `MarkupLeaf`, `MarkupBranch`, `MarkupTree`: the tree.
* `MarkupTree.ofValue`: the tree that a value describes.
-/

namespace LiveMarkdown

/-- A place in the source, in units of sixteen bits. -/
structure Span where
  start : Nat
  stop : Nat
  deriving DecidableEq, Repr

/-- What a markup node without children is. -/
inductive MarkupLeaf where
  | thematicBreak
  | code (lang info : Option String) (value : String)
  | html (value : String)
  | yaml (value : String)
  | math (value : String)
  | definition (identifier url : String) (title : Option String)
  | text (value : String)
  | inlineCode (value : String)
  | lineBreak
  | image (url : String) (title alt : Option String)
  | imageReference (identifier : String) (alt : Option String)
  | footnoteReference (identifier : String) (label : Option String)
  | inlineMath (value : String)
  deriving DecidableEq, Repr

/-- What a markup node with children is. -/
inductive MarkupBranch where
  | paragraph
  | heading (depth : Nat)
  | blockquote
  | list (ordered : Bool) (start : Option Nat) (spread : Bool)
  | listItem (checked : Option Bool)
  | table (alignments : List Alignment)
  | tableRow
  | tableCell
  | footnoteDefinition (identifier : String) (label : Option String)
  | emphasis
  | strong
  | delete
  | link (url : String) (title : Option String)
  | linkReference (identifier : String)
  /-- A type without a meaning for documents. -/
  | unknown
  deriving DecidableEq, Repr

/-- A markup tree. -/
inductive MarkupTree where
  | leaf (span : Option Span) (leaf : MarkupLeaf)
  | branch (span : Option Span) (branch : MarkupBranch) (children : List MarkupTree)
  deriving Repr

namespace MarkupTree

/-- The children of a node. -/
def children : MarkupTree → List MarkupTree
  | leaf _ _ => []
  | branch _ _ children => children

/-- The place of a node. -/
def span : MarkupTree → Option Span
  | leaf s _ => s
  | branch s _ _ => s

/-- The place that a value describes by the offsets of its start and its end. -/
def spanOf? (v : Value) : Option Span := do
  let position ← v.field? "position"
  let offset (key : String) : Option Nat :=
    ((position.field? key).bind (Value.field? "offset")).bind Value.nat?
  return ⟨← offset "start", ← offset "end"⟩

/-- The alignment of a column; anything but the three names leaves it open. -/
def alignmentOf : Value → Alignment
  | .text "left" => .left
  | .text "right" => .right
  | .text "center" => .center
  | _ => .none

/-- What the record of a markup node is. -/
def contentOf (v : Value) : MarkupLeaf ⊕ MarkupBranch :=
  let text? (key : String) : Option String := (v.field? key).bind Value.text?
  let text (key : String) : String := (text? key).getD ""
  let bool? (key : String) : Option Bool := (v.field? key).bind Value.bool?
  let nat? (key : String) : Option Nat := (v.field? key).bind Value.nat?
  match text "type" with
  | "paragraph" => .inr .paragraph
  | "heading" => .inr (.heading ((nat? "depth").getD 1))
  | "thematicBreak" => .inl .thematicBreak
  | "blockquote" => .inr .blockquote
  | "list" =>
    .inr (.list (bool? "ordered" == some true) (nat? "start") (bool? "spread" == some true))
  | "listItem" => .inr (.listItem (bool? "checked"))
  | "code" => .inl (.code (text? "lang") (text? "meta") (text "value"))
  | "html" => .inl (.html (text "value"))
  | "table" =>
    .inr (.table ((((v.field? "align").bind Value.list?).getD []).map alignmentOf))
  | "tableRow" => .inr .tableRow
  | "tableCell" => .inr .tableCell
  | "footnoteDefinition" => .inr (.footnoteDefinition (text "identifier") (text? "label"))
  | "yaml" => .inl (.yaml (text "value"))
  | "math" => .inl (.math (text "value"))
  | "definition" => .inl (.definition (text "identifier") (text "url") (text? "title"))
  | "text" => .inl (.text (text "value"))
  | "emphasis" => .inr .emphasis
  | "strong" => .inr .strong
  | "delete" => .inr .delete
  | "inlineCode" => .inl (.inlineCode (text "value"))
  | "break" => .inl .lineBreak
  | "link" => .inr (.link (text "url") (text? "title"))
  | "image" => .inl (.image (text "url") (text? "title") (text? "alt"))
  | "linkReference" => .inr (.linkReference (text "identifier"))
  | "imageReference" => .inl (.imageReference (text "identifier") (text? "alt"))
  | "footnoteReference" => .inl (.footnoteReference (text "identifier") (text? "label"))
  | "inlineMath" => .inl (.inlineMath (text "value"))
  | _ => .inr .unknown

mutual

/-- The tree that a value describes. -/
def ofValue : Value → MarkupTree
  | .record fields =>
    match contentOf (.record fields) with
    | .inl l => leaf (spanOf? (.record fields)) l
    | .inr b => branch (spanOf? (.record fields)) b (childrenOf fields)
  | _ => branch none .unknown []

/-- The trees in the field `children`. -/
def childrenOf : List (String × Value) → List MarkupTree
  | [] => []
  | (key, value) :: rest => if key = "children" then treesOf value else childrenOf rest

/-- The trees that a list describes. -/
def treesOf : Value → List MarkupTree
  | .list items => ofValues items
  | _ => []

/-- The trees that values describe. -/
def ofValues : List Value → List MarkupTree
  | [] => []
  | v :: vs => ofValue v :: ofValues vs

end

end MarkupTree

end LiveMarkdown
