import LiveMarkdown.Markup.Tree
import LiveMarkdown.Node.Build
import LiveMarkdown.Completion.Line
import LiveMarkdown.Text.Trim
import LiveMarkdown.Text.Units

/-!
# Documents from markup trees

A markup tree becomes a list of document nodes. References take address and title from the first
definition of their identifier, wherever it stands. What the tree does not tell, how a heading, a
code block, a code span or a list was written, is read off the source at the place of the node.

## Main definitions

* `Definition`, `MarkupTree.definitions`: the definitions of a tree, in document order.
* `Source`: the source text together with the definitions.
* `MarkupTree.toNodes`: the nodes of a tree.
* `documentNodes`: the nodes of a whole text.
-/

namespace LiveMarkdown

/-- The address and the title that an identifier stands for. -/
structure Definition where
  identifier : String
  url : String
  title : String
  deriving DecidableEq, Repr

namespace MarkupTree

mutual

/-- The definitions in a tree, in document order. -/
def definitions : MarkupTree → List Definition
  | leaf _ (.definition identifier url title) => [⟨identifier, url, title.getD ""⟩]
  | leaf _ _ => []
  | branch _ _ children => definitionsList children

/-- The definitions in siblings, in document order. -/
def definitionsList : List MarkupTree → List Definition
  | [] => []
  | t :: ts => definitions t ++ definitionsList ts

end

end MarkupTree

/-- The source text of a tree together with the definitions in it. -/
structure Source where
  text : List Char
  definitions : List Definition

namespace Source

/-- The source at a place. A node without a place has none. -/
def slice (s : Source) (span : Option Span) : List Char :=
  match span with
  | none => []
  | some p => sliceUnits p.start p.stop s.text

/-- The first definition of an identifier. Without one the address and the title are empty. -/
def resolve (s : Source) (identifier : String) : Definition :=
  (s.definitions.find? (fun d => d.identifier == identifier)).getD ⟨identifier, "", ""⟩

end Source

/-- Whether a heading was written with an underline: its source does not start with a number
sign. -/
def isSetextSource (slice : List Char) : Bool :=
  !slice.isEmpty && (trimLeft slice).head? != some '#'

/-- The marker at the start of a list item. -/
def listMarkerOf (slice : List Char) : List Char :=
  match slice.dropWhile isSpaceOrTab with
  | '-' :: _ => ['-']
  | '+' :: _ => ['+']
  | '*' :: _ => ['*']
  | cs =>
    match afterOrdinal? cs with
    | some rest => cs.take (cs.length - rest.length)
    | none => []

/-- The fence at the start of a code block: its mark and its length. -/
def fenceOf? (slice : List Char) : Option (FenceMark × Nat) :=
  match trimLeft slice with
  | [] => none
  | c :: cs =>
    match FenceMark.ofChar? c with
    | none => none
    | some mark =>
      let length := runLength c (c :: cs)
      if 3 ≤ length then some (mark, length) else none

/-- The text of a value that is there and not empty. -/
def nonEmpty? (s : Option String) : Option String :=
  s.filter (fun t => !t.isEmpty)

/-- Text with its line endings as soft breaks. Empty lines leave no text. -/
def textNodes (value : String) : List Node :=
  let line (cs : List Char) : List Node :=
    if cs.isEmpty then [] else [Node.text (String.ofList cs)]
  match splitLines value.toList with
  | [] => []
  | first :: rest =>
    line first ++ rest.flatMap (fun cs => Node.ofLeaf .softBreak :: line cs)

/-- A code block. Its info string is the language and what follows it; an indented block has
none. -/
def codeNode (slice : List Char) (lang info : Option String) (value : String) : Node :=
  let infoText :=
    match nonEmpty? lang, nonEmpty? info with
    | none, _ => ""
    | some l, none => l
    | some l, some m => l ++ " " ++ m
  let literal := if value.isEmpty then "" else value ++ "\n"
  match fenceOf? slice with
  | some (mark, length) => Node.codeBlock literal infoText (some mark) length
  | none => Node.codeBlock literal "" none 0

/-- The text by which an image is described, as its content. -/
def altNodes (alt : Option String) : List Node :=
  match nonEmpty? alt with
  | some s => [Node.text s]
  | none => []

/-- The nodes of a leaf. `inline` says whether it stands among inlines. -/
def MarkupLeaf.toNodes (s : Source) (inline : Bool) (slice : List Char) : MarkupLeaf → List Node
  | thematicBreak => [.ofLeaf .thematicBreak]
  | code lang info value => [codeNode slice lang info value]
  | html value => [.ofLeaf (if inline then .htmlInline value else .htmlBlock value)]
  | yaml value => [.ofLeaf (.frontMatter value)]
  | math value => [.ofLeaf (.mathBlock value)]
  | definition _ _ _ => []
  | text value => textNodes value
  | inlineCode value =>
    let run := runLength '`' slice
    [.ofLeaf (.code (if run = 0 then 1 else run) value)]
  | lineBreak => [.ofLeaf .lineBreak]
  | image url title alt => [.ofContainer (.image url (title.getD "")) (altNodes alt)]
  | imageReference identifier alt =>
    let d := s.resolve identifier
    [.ofContainer (.image d.url d.title) (altNodes alt)]
  | footnoteReference identifier label => [.ofLeaf (.footnoteReference (label.getD identifier))]
  | inlineMath value => [.ofLeaf (.math (slice.take 2 == ['$', '$']) value)]

/-- The attributes of a list whose first item has the given marker. -/
def listAttributes (ordered : Bool) (start : Option Nat) (spread tasks : Bool)
    (marker : List Char) : ListAttributes where
  listType := if ordered then .ordered else .bullet
  start := start.getD 1
  delimiter := if marker.getLast? == some ')' then .paren else .period
  bulletChar :=
    if ordered then "" else String.ofList [marker.headD '-']
  tight := !spread
  isTaskList := tasks

namespace MarkupTree

/-- Whether an item has a box, and whether that is checked. -/
def checked? : MarkupTree → Option Bool
  | branch _ (.listItem checked) _ => checked
  | _ => none

/-- A row with as many cells as there are columns. -/
def padRow (columns : Nat) (cells : List Node) : List Node :=
  cells ++ List.replicate (columns - cells.length) (Node.ofContainer .tableCell [])

/-- The number of cells of the widest row. -/
def widestRow (rows : List MarkupTree) : Nat :=
  rows.foldl (fun n row => max n row.children.length) 0

mutual

/-- The nodes of a tree. `inline` says whether it stands among inlines. -/
def toNodes (s : Source) (inline : Bool) : MarkupTree → List Node
  | leaf span l => l.toNodes s inline (s.slice span)
  | branch _ .paragraph ts => [.paragraph (toNodesList s true ts)]
  | branch span (.heading depth) ts =>
    [.ofContainer (.heading depth (isSetextSource (s.slice span))) (toNodesList s true ts)]
  | branch _ .blockquote ts => [.ofContainer .blockQuote (toNodesList s false ts)]
  | branch _ (.list ordered start spread) ts =>
    let marker := (ts.head?.map fun t => listMarkerOf (s.slice t.span)).getD []
    let tasks := ts.any fun t => t.checked?.isSome
    let attributes := listAttributes ordered start spread tasks marker
    [.list attributes (itemNodes s attributes ts)]
  | branch _ (.table alignments) ts =>
    let columns := alignments ++ List.replicate (widestRow ts - alignments.length) .none
    [.table (rowNodes s columns.length true ts) (some columns)]
  | branch _ (.footnoteDefinition identifier label) ts =>
    [.ofContainer (.footnoteDefinition (label.getD identifier)) (toNodesList s false ts)]
  | branch _ .emphasis ts => [.ofContainer .emph (toNodesList s true ts)]
  | branch _ .strong ts => [.ofContainer .strong (toNodesList s true ts)]
  | branch _ .delete ts => [.ofContainer .strikethrough (toNodesList s true ts)]
  | branch _ (.link url title) ts =>
    [.ofContainer (.link url (title.getD "")) (toNodesList s true ts)]
  | branch _ (.linkReference identifier) ts =>
    let d := s.resolve identifier
    [.ofContainer (.link d.url d.title) (toNodesList s true ts)]
  | branch _ (.listItem _) _ => []
  | branch _ .tableRow _ => []
  | branch _ .tableCell _ => []
  | branch _ .unknown _ => []

/-- The nodes of siblings. -/
def toNodesList (s : Source) (inline : Bool) : List MarkupTree → List Node
  | [] => []
  | t :: ts => toNodes s inline t ++ toNodesList s inline ts

/-- The content of a list item or a table cell. -/
def contentNodes (s : Source) (inline : Bool) : MarkupTree → List Node
  | leaf _ _ => []
  | branch _ _ ts => toNodesList s inline ts

/-- The items of a list. -/
def itemNodes (s : Source) (attributes : ListAttributes) : List MarkupTree → List Node
  | [] => []
  | t :: ts =>
    let content := contentNodes s false t
    let item :=
      match t.checked? with
      | some checked => Node.taskItem checked content
      | none => Node.listItem ⟨attributes.listType, attributes.start, attributes.bulletChar⟩ content
    item :: itemNodes s attributes ts

/-- The cells of a row. -/
def cellNodes (s : Source) : List MarkupTree → List Node
  | [] => []
  | t :: ts => Node.ofContainer .tableCell (contentNodes s true t) :: cellNodes s ts

/-- The cells that a row holds. -/
def cellsOf (s : Source) : MarkupTree → List Node
  | leaf _ _ => []
  | branch _ _ ts => cellNodes s ts

/-- The rows of a table, of which only the first can be the header. -/
def rowNodes (s : Source) (columns : Nat) (header : Bool) : List MarkupTree → List Node
  | [] => []
  | t :: ts =>
    Node.tableRow header (padRow columns (cellsOf s t)) :: rowNodes s columns false ts

end

end MarkupTree

/-- The nodes of a text that has been read into trees. -/
def documentNodes (source : String) (trees : List MarkupTree) : List Node :=
  let s : Source := ⟨source.toList, MarkupTree.definitionsList trees⟩
  MarkupTree.toNodesList s false trees

end LiveMarkdown
