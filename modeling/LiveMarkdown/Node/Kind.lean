/-!
# Node kinds

Every node of a document has one of thirty-three kinds. A kind has a number, under which it is
exchanged with the outside, and a name, under which it is reported.

## Main definitions

* `NodeKind`: the kinds, in the order of their numbers.
* `NodeKind.toNat`, `NodeKind.ofNat?`, `NodeKind.name`, `NodeKind.ofName?`.
-/

namespace LiveMarkdown

/-- The kinds of nodes. -/
inductive NodeKind where
  | document
  | frontMatter
  | paragraph
  | heading
  | blockQuote
  | list
  | codeBlock
  | htmlBlock
  | thematicBreak
  | table
  | descriptionList
  | footnoteDefinition
  | mathBlock
  | listItem
  | taskItem
  | tableRow
  | tableCell
  | descriptionItem
  | descriptionTerm
  | descriptionDetails
  | text
  | code
  | emph
  | strong
  | strikethrough
  | link
  | image
  | htmlInline
  | softBreak
  | lineBreak
  | math
  | footnoteReference
  | raw
  deriving DecidableEq, Repr

namespace NodeKind

/-- All kinds, in the order of their numbers. -/
def all : List NodeKind :=
  [document, frontMatter, paragraph, heading, blockQuote, list, codeBlock, htmlBlock, thematicBreak,
    table, descriptionList, footnoteDefinition, mathBlock, listItem, taskItem, tableRow, tableCell,
    descriptionItem, descriptionTerm, descriptionDetails, text, code, emph, strong, strikethrough,
    link, image, htmlInline, softBreak, lineBreak, math, footnoteReference, raw]

/-- The number of a kind. -/
def toNat (k : NodeKind) : Nat :=
  all.idxOf k

/-- The kind with the given number. -/
def ofNat? (n : Nat) : Option NodeKind :=
  all[n]?

/-- The name of a kind. -/
def name : NodeKind → String
  | document => "Document"
  | frontMatter => "FrontMatter"
  | paragraph => "Paragraph"
  | heading => "Heading"
  | blockQuote => "BlockQuote"
  | list => "List"
  | codeBlock => "CodeBlock"
  | htmlBlock => "HtmlBlock"
  | thematicBreak => "ThematicBreak"
  | table => "Table"
  | descriptionList => "DescriptionList"
  | footnoteDefinition => "FootnoteDefinition"
  | mathBlock => "MathBlock"
  | listItem => "ListItem"
  | taskItem => "TaskItem"
  | tableRow => "TableRow"
  | tableCell => "TableCell"
  | descriptionItem => "DescriptionItem"
  | descriptionTerm => "DescriptionTerm"
  | descriptionDetails => "DescriptionDetails"
  | text => "Text"
  | code => "Code"
  | emph => "Emph"
  | strong => "Strong"
  | strikethrough => "Strikethrough"
  | link => "Link"
  | image => "Image"
  | htmlInline => "HtmlInline"
  | softBreak => "SoftBreak"
  | lineBreak => "LineBreak"
  | math => "Math"
  | footnoteReference => "FootnoteReference"
  | raw => "Raw"

/-- The kind with the given name. -/
def ofName? (s : String) : Option NodeKind :=
  all.find? (fun k => k.name == s)

theorem mem_all (k : NodeKind) : k ∈ all := by
  cases k <;> decide

theorem ofNat?_toNat (k : NodeKind) : ofNat? k.toNat = some k := by
  cases k <;> decide

end NodeKind

end LiveMarkdown
