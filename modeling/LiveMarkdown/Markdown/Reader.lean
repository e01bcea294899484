import LiveMarkdown.Markdown.BlockReader
import LiveMarkdown.Markdown.TextReader
import LiveMarkdown.Markup.Convert
import LiveMarkdown.Stream.Engine

/-!
# The Markdown engine

When all blocks of a text are known, so are the labels that references may lead to, and the running
text of the blocks is read. The markup tree that results becomes a document.

## Main definitions

* `taskBox?`: the box at the start of a list item.
* `Block.toTree`: a block with its running text read.
* `readMarkup`: the markup trees of a text.
* `markdownEngine`: the engine that reads Markdown.
-/

namespace LiveMarkdown

/-- The box at the start of a list item: whether it is checked, and what is left behind it.
Something has to follow behind white space. -/
def taskBox? (gs : List Glyph) : Option (Bool × List Glyph) :=
  match gs with
  | left :: mark :: right :: rest =>
    let follows := rest.head?.any Glyph.isLineEnd ||
      (rest.head?.any Glyph.isSpace && !(dropAllIndent rest).isEmpty)
    let checked := mark.char == 'x' || mark.char == 'X'
    if left.char == '[' && (checked || mark.isWhite) && right.char == ']' && follows then
      some (checked, rest)
    else none
  | _ => none

/-- Trees without the white space that separates a box from what follows it. -/
def dropBoxSpace : List MarkupTree → List MarkupTree
  | .leaf span (.text value) :: ts =>
    match value.toList.drop 1 with
    | [] => ts
    | cs => .leaf span (.text (String.ofList cs)) :: ts
  | ts => ts

/-- The box of a paragraph, which only one at the start of a list item can have. -/
def TextRole.box? (ext : Extensions) (role : TextRole) (content : List Glyph) :
    Option (Bool × List Glyph) :=
  match role with
  | .paragraph true => if ext.gfm then taskBox? content else none
  | _ => none

/-- The trees of the running text of a block. In the paragraph that `starts` a list item, the white
space behind a box goes with the box. -/
def TextRole.trees (ext : Extensions) (references : References) (starts : Bool) (role : TextRole)
    (content : List Glyph) : List MarkupTree :=
  let s : TextSetting := ⟨ext, references, role == .cell⟩
  let trees :=
    match role.box? ext content with
    | some (_, rest) =>
      let behind := readText s (some ']') rest
      if starts then dropBoxSpace behind else behind
    | none => readText s none content
  if ext.gfm then linkAddresses trees else trees

/-- Whether a branch is the item of a list. -/
def MarkupBranch.isListItem : MarkupBranch → Bool
  | .listItem _ => true
  | _ => false

namespace Block

/-- Whether a block has a box, and whether that is checked. -/
def checked? (ext : Extensions) : Block → Option Bool
  | text _ role content => (role.box? ext content).map Prod.fst
  | _ => none

/-- What a branch is when its children are known: an item with boxes is a task, which the last of
them settles. -/
def settleBranch (ext : Extensions) (children : List Block) : MarkupBranch → MarkupBranch
  | .listItem _ => .listItem (children.filterMap (checked? ext)).getLast?
  | b => b

/-- Whether a block is a paragraph. -/
def isParagraph : Block → Bool
  | text _ (.paragraph _) _ => true
  | _ => false

mutual

/-- A block with its running text read. A paragraph there `starts` a list item. -/
def toTree (ext : Extensions) (references : References) (starts : Bool) : Block → MarkupTree
  | leaf span l => .leaf span l
  | text span role content => .branch span role.branch (role.trees ext references starts content)
  | branch span b children =>
    .branch span (settleBranch ext children b) (toTrees ext references b.isListItem children)

/-- Blocks with their running text read. The first paragraph among them `starts` a list item. -/
def toTrees (ext : Extensions) (references : References) (starts : Bool) :
    List Block → List MarkupTree
  | [] => []
  | b :: bs =>
    toTree ext references starts b :: toTrees ext references (starts && !b.isParagraph) bs

end

end Block

/-- The markup trees of a text. -/
def readMarkup (ext : Extensions) (text : String) : List MarkupTree :=
  let blocks := readBlocks ext text.toList
  Block.toTrees ext (Block.referencesList blocks) false blocks

/-- The extensions that options ask for: all that are not turned off. -/
def EngineOptions.extensions (o : EngineOptions) : Extensions :=
  ⟨o.gfm.getD true, o.math.getD true, o.frontmatter.getD true⟩

/-- The engine that reads Markdown, with defaults for the options that a call leaves open. -/
def markdownEngine (defaults : EngineOptions) : Engine := fun options text =>
  .ok (documentNodes text (readMarkup (options.orElse defaults).extensions text))

end LiveMarkdown
