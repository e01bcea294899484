import LiveMarkdown.Node.Build
import LiveMarkdown.Value.Basic

/-!
# Nodes as values

A node is exchanged as a record with its kind, its flags, the attributes of its kind and, for a
container, its children.

## Main definitions

* `Node.toValue`: the record of a node.
* `Node.ofValue?`: the node that a value is.
* `Node.create?`: a node from its kind and a list of attribute values, some of which may be left
  out.
-/

namespace LiveMarkdown

open Value (ofNat)

/-- The name of a list type. -/
def ListType.name : ListType → String
  | bullet => "bullet"
  | ordered => "ordered"

/-- The list type of the given name. -/
def ListType.ofName? (s : String) : Option ListType :=
  [bullet, ordered].find? (fun t => t.name == s)

/-- The name of a delimiter. -/
def ListDelimiter.name : ListDelimiter → String
  | period => "period"
  | paren => "paren"

/-- The delimiter of the given name. -/
def ListDelimiter.ofName? (s : String) : Option ListDelimiter :=
  [period, paren].find? (fun t => t.name == s)

/-- The name of an alignment. -/
def Alignment.name : Alignment → String
  | none => "none"
  | left => "left"
  | center => "center"
  | right => "right"

/-- The alignment of the given name. -/
def Alignment.ofName? (s : String) : Option Alignment :=
  [none, left, center, right].find? (fun t => t.name == s)

/-- The fence character as text; an indented block has an empty one. -/
def fenceText : Option FenceMark → String
  | none => ""
  | some mark => String.ofList [mark.char]

/-- The fence character that a text is. -/
def fenceOfText? (s : String) : Option (Option FenceMark) :=
  [none, some .backtick, some .tilde].find? (fun m => fenceText m == s)

/-- The attributes of a leaf. -/
def Leaf.fields : Leaf → List (String × Value)
  | frontMatter s => [("literal", .text s)]
  | codeBlock b =>
    [("fenced", .bool b.fenced), ("fenceChar", .text (fenceText b.fenceMark)),
      ("fenceLength", ofNat b.fenceLength), ("info", .text b.info), ("literal", .text b.literal)]
  | htmlBlock s => [("literal", .text s)]
  | thematicBreak => []
  | mathBlock s => [("literal", .text s)]
  | text s => [("literal", .text s)]
  | code n s => [("numBackticks", ofNat n), ("literal", .text s)]
  | htmlInline s => [("literal", .text s)]
  | softBreak => []
  | lineBreak => []
  | math d s => [("displayMath", .bool d), ("literal", .text s)]
  | footnoteReference s => [("name", .text s)]
  | raw s => [("literal", .text s)]

/-- The attributes of a container, without its children. -/
def Container.fields : Container → List (String × Value)
  | heading level setext => [("level", ofNat level), ("setext", .bool setext)]
  | list a =>
    [("listType", .text a.listType.name), ("start", ofNat a.start),
      ("delimiter", .text a.delimiter.name), ("bulletChar", .text a.bulletChar),
      ("tight", .bool a.tight), ("isTaskList", .bool a.isTaskList)]
  | table a =>
    [("alignments", .list (a.alignments.map fun x => .text x.name)),
      ("numColumns", ofNat a.numColumns), ("numRows", ofNat a.numRows)]
  | footnoteDefinition name => [("name", .text name)]
  | listItem a =>
    [("listType", .text a.listType.name), ("start", ofNat a.start),
      ("bulletChar", .text a.bulletChar)]
  | taskItem checked marker => [("checked", .bool checked), ("marker", .text marker)]
  | tableRow header => [("header", .bool header)]
  | link url title => [("url", .text url), ("title", .text title)]
  | image url title => [("url", .text url), ("title", .text title)]
  | _ => []

/-- The fields that every node has. -/
def commonFields (kind : NodeKind) (flags : NodeFlags) : List (String × Value) :=
  [("kind", ofNat kind.toNat), ("flags", ofNat flags.bits)]

namespace Node

mutual

/-- The record of a node. -/
def toValue : Node → Value
  | leaf f l => .record (commonFields l.kind f ++ l.fields)
  | branch f c children =>
    .record (commonFields c.kind f ++ c.fields ++ [("children", .list (toValues children))])

/-- The records of siblings. -/
def toValues : List Node → List Value
  | [] => []
  | n :: ns => toValue n :: toValues ns

end

/-- The alignments that a list of names gives. -/
def alignmentsOf? (v : Value) : Option (List Alignment) :=
  v.list?.bind (fun names => names.mapM fun name => name.text?.bind Alignment.ofName?)

/-- What a record may be: a leaf, or a container whose children are still to be read. -/
def contentOf? (v : Value) : Option (Leaf ⊕ Container) := do
  let text (key : String) : Option String := (v.field? key).bind Value.text?
  let nat (key : String) : Option Nat := (v.field? key).bind Value.nat?
  let bool (key : String) : Option Bool := (v.field? key).bind Value.bool?
  match ← v.kind? with
  | .document => some (.inr .document)
  | .frontMatter => return .inl (.frontMatter (← text "literal"))
  | .paragraph => some (.inr .paragraph)
  | .heading => return .inr (.heading (← nat "level") (← bool "setext"))
  | .blockQuote => some (.inr .blockQuote)
  | .list =>
    return .inr (.list ⟨← (← text "listType") |> ListType.ofName?, ← nat "start",
      ← (← text "delimiter") |> ListDelimiter.ofName?, ← text "bulletChar", ← bool "tight",
      ← bool "isTaskList"⟩)
  | .codeBlock =>
    return .inl (.codeBlock ⟨← bool "fenced", ← fenceOfText? (← text "fenceChar"),
      ← nat "fenceLength", ← text "info", ← text "literal"⟩)
  | .htmlBlock => return .inl (.htmlBlock (← text "literal"))
  | .thematicBreak => some (.inl .thematicBreak)
  | .table =>
    return .inr (.table ⟨← (v.field? "alignments").bind alignmentsOf?, ← nat "numColumns",
      ← nat "numRows"⟩)
  | .descriptionList => some (.inr .descriptionList)
  | .footnoteDefinition => return .inr (.footnoteDefinition (← text "name"))
  | .mathBlock => return .inl (.mathBlock (← text "literal"))
  | .listItem =>
    return .inr (.listItem ⟨← (← text "listType") |> ListType.ofName?, ← nat "start",
      ← text "bulletChar"⟩)
  | .taskItem => return .inr (.taskItem (← bool "checked") (← text "marker"))
  | .tableRow => return .inr (.tableRow (← bool "header"))
  | .tableCell => some (.inr .tableCell)
  | .descriptionItem => some (.inr .descriptionItem)
  | .descriptionTerm => some (.inr .descriptionTerm)
  | .descriptionDetails => some (.inr .descriptionDetails)
  | .text => return .inl (.text (← text "literal"))
  | .code => return .inl (.code (← nat "numBackticks") (← text "literal"))
  | .emph => some (.inr .emph)
  | .strong => some (.inr .strong)
  | .strikethrough => some (.inr .strikethrough)
  | .link => return .inr (.link (← text "url") (← text "title"))
  | .image => return .inr (.image (← text "url") (← text "title"))
  | .htmlInline => return .inl (.htmlInline (← text "literal"))
  | .softBreak => some (.inl .softBreak)
  | .lineBreak => some (.inl .lineBreak)
  | .math => return .inl (.math (← bool "displayMath") (← text "literal"))
  | .footnoteReference => return .inl (.footnoteReference (← text "name"))
  | .raw => return .inl (.raw (← text "literal"))

/-- Puts a node together from its record and its children, if the record has the shape of a node and
those could be read. -/
def assemble? (v : Value) (children : Option (List Node)) : Option Node :=
  if v.hasNodeShape then do
    let flags := (← (v.field? "flags").bind Value.nat?)
    match ← contentOf? v with
    | .inl l => some (leaf ⟨flags⟩ l)
    | .inr c => return branch ⟨flags⟩ c (← children)
  else none

mutual

/-- The node that a value is, if it has all that its kind needs. -/
def ofValue? : Value → Option Node
  | .record fields => assemble? (.record fields) (childrenOf? fields)
  | _ => none

/-- The nodes in the field `children`. -/
def childrenOf? : List (String × Value) → Option (List Node)
  | [] => none
  | (key, value) :: rest => if key = "children" then nodesOf? value else childrenOf? rest

/-- The nodes that a list holds. -/
def nodesOf? : Value → Option (List Node)
  | .list items => ofValues? items
  | _ => none

/-- The nodes that values are, if all of them are. -/
def ofValues? : List Value → Option (List Node)
  | [] => some []
  | v :: vs =>
    match ofValue? v, ofValues? vs with
    | some n, some ns => some (n :: ns)
    | _, _ => none

end

/-- List attributes from a record that may leave any of them out. -/
def listAttributesOf (v : Value) : ListAttributes :=
  let base : ListAttributes := {}
  { listType := (((v.field? "listType").bind Value.text?).bind ListType.ofName?).getD base.listType
    start := ((v.field? "start").bind Value.nat?).getD base.start
    delimiter :=
      (((v.field? "delimiter").bind Value.text?).bind ListDelimiter.ofName?).getD base.delimiter
    bulletChar := ((v.field? "bulletChar").bind Value.text?).getD base.bulletChar
    tight := ((v.field? "tight").bind Value.bool?).getD base.tight
    isTaskList := ((v.field? "isTaskList").bind Value.bool?).getD base.isTaskList }

/-- Item attributes from a record that may leave any of them out. -/
def itemAttributesOf (v : Value) : ItemAttributes :=
  let all := listAttributesOf v
  ⟨all.listType, all.start, all.bulletChar⟩

/-- Builds a node of a kind from its attribute values in order. Children come last but for a title,
a header mark, alignments or attributes. Values may be left out at the end: no children, no title,
no header, an ATX heading, one backtick, an inline formula, a fence of three backticks. -/
def create? (kind : NodeKind) (args : List Value) : Option Node := do
  let text (i : Nat) : Option String := args[i]?.bind Value.text?
  let nat (i : Nat) : Option Nat := args[i]?.bind Value.nat?
  let bool (i : Nat) : Bool := (args[i]?.bind Value.bool?).getD false
  let nodes (i : Nat) : Option (List Node) := (args[i]?.map nodesOf?).getD (some [])
  let record (i : Nat) : Value := args[i]?.getD (.record [])
  match kind with
  | .document => return ofContainer .document (← nodes 0)
  | .frontMatter => return ofLeaf (.frontMatter (← text 0))
  | .paragraph => return paragraph (← nodes 0)
  | .heading => return ofContainer (.heading (← nat 0) (bool 2)) (← nodes 1)
  | .blockQuote => return ofContainer .blockQuote (← nodes 0)
  | .list => return list (listAttributesOf (record 1)) (← nodes 0)
  | .codeBlock =>
    let mark := ((text 2).bind fenceOfText?).getD (some .backtick)
    return codeBlock (← text 0) ((text 1).getD "") mark ((nat 3).getD 3)
  | .htmlBlock => return ofLeaf (.htmlBlock (← text 0))
  | .thematicBreak => some (ofLeaf .thematicBreak)
  | .table => return table (← nodes 0) (args[1]?.bind alignmentsOf?)
  | .descriptionList => return ofContainer .descriptionList (← nodes 0)
  | .footnoteDefinition => return ofContainer (.footnoteDefinition (← text 0)) (← nodes 1)
  | .mathBlock => return ofLeaf (.mathBlock (← text 0))
  | .listItem => return listItem (itemAttributesOf (record 1)) (← nodes 0)
  | .taskItem => return taskItem (bool 0) (← nodes 1)
  | .tableRow => return tableRow (bool 1) (← nodes 0)
  | .tableCell => return ofContainer .tableCell (← nodes 0)
  | .descriptionItem => return ofContainer .descriptionItem (← nodes 0)
  | .descriptionTerm => return ofContainer .descriptionTerm (← nodes 0)
  | .descriptionDetails => return ofContainer .descriptionDetails (← nodes 0)
  | .text => return Node.text (← text 0)
  | .code => return ofLeaf (.code ((nat 1).getD 1) (← text 0))
  | .emph => return ofContainer .emph (← nodes 0)
  | .strong => return ofContainer .strong (← nodes 0)
  | .strikethrough => return ofContainer .strikethrough (← nodes 0)
  | .link => return ofContainer (.link (← text 0) ((text 2).getD "")) (← nodes 1)
  | .image => return ofContainer (.image (← text 0) ((text 2).getD "")) (← nodes 1)
  | .htmlInline => return ofLeaf (.htmlInline (← text 0))
  | .softBreak => some (ofLeaf .softBreak)
  | .lineBreak => some (ofLeaf .lineBreak)
  | .math => return ofLeaf (.math (bool 1) (← text 0))
  | .footnoteReference => return ofLeaf (.footnoteReference (← text 0))
  | .raw => return ofLeaf (.raw (← text 0))

end Node

end LiveMarkdown
