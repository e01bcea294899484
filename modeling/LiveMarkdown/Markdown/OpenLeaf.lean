import LiveMarkdown.Markdown.Block

/-!
# Open leaves

While a text is read line by line, at most one leaf block is open, at the bottom of the open
containers. Some leaves take every line until they are closed, others ask each line what it is.

## Main definitions

* `OpenLeaf`: a leaf block that may still grow, with its lines newest first.
* `OpenLeaf.close`: the blocks it has become.
-/

namespace LiveMarkdown

/-- A leaf block that may still grow. Lines and rows are kept newest first. -/
inductive OpenLeaf where
  | none
  /-- A paragraph; its first line has lost its indentation. -/
  | paragraph (leadsItem : Bool) (lines : List SourceLine)
  /-- Indented code, with its first line as it is written. The blank lines at its end belong to it
  only if more code follows. -/
  | indented (first : List Glyph) (lines blanks : List SourceLine)
  /-- What stands between two fences, with the line of the first fence. -/
  | fenced (fence : Fence) (top : SourceLine) (lines : List SourceLine)
  | html (kind : HtmlBlockKind) (lines : List SourceLine)
  | table (alignments : List Alignment) (rows : List (List (List Glyph)))
  deriving Repr

namespace OpenLeaf

/-- Whether no container can start inside the leaf. -/
def isOpaque : OpenLeaf → Bool
  | fenced _ _ _ => true
  | html _ _ => true
  | _ => false

/-- Whether a container that starts on the next line interrupts the leaf. -/
def isInterrupted : OpenLeaf → Bool
  | paragraph _ _ => true
  | indented _ _ _ => true
  | _ => false

/-- Whether a line without text belongs to the leaf all the same. -/
def keepsBlank (gs : List Glyph) : OpenLeaf → Bool
  | fenced _ _ _ => true
  | html kind _ => !kind.endsAtBlank
  | indented _ _ _ => codeIndent ≤ indentOf gs
  | _ => false

/-- Whether a leaf that ends by itself holds the line ending behind its last line. -/
def holdsLineEnd : OpenLeaf → Bool
  | fenced _ _ _ => true
  | html kind _ => !kind.endsAtBlank
  | _ => false

end OpenLeaf

/-- Lines, given newest first, without the line ending behind the last of them. -/
def joinNewest (lines : List SourceLine) : List Glyph :=
  match lines with
  | [] => []
  | last :: before => joinLines before.reverse ++ last.glyphs

/-- The text of a paragraph. -/
def paragraphText (lines : List SourceLine) : List Glyph :=
  dropAllIndent (joinNewest lines)

/-- What the lines of a paragraph have become: definitions, and the text behind them. -/
def paragraphBlocks (leadsItem : Bool) (lines : List SourceLine) : List Block :=
  let (definitions, text) := leadingDefinitions (paragraphText lines)
  if text.isEmpty then definitions
  else definitions ++ [.text none (.paragraph leadsItem) text]

/-- The heading that the lines of a paragraph become when they are underlined, behind definitions.
It takes the place of all these lines. There is none if nothing but definitions is there. -/
def underlinedBlocks? (depth : Nat) (lines : List SourceLine) : Option (List Block) :=
  let whole := paragraphText lines
  let (definitions, text) := leadingDefinitions whole
  if text.isEmpty then none
  else some (definitions ++ [.text (spanOf? whole) (.heading depth) text])

/-- The text of lines without the line ending at the end of it. -/
def textWithoutEnd (gs : List Glyph) : String :=
  String.ofList (glyphText (if gs.getLast?.any Glyph.isLineEnd then gs.dropLast else gs))

namespace OpenLeaf

/-- The blocks that a leaf has become. Where it `ended` by itself the line ending behind its last
line belongs to it, where another block cut it off it does not. -/
def close (ended : Bool) : OpenLeaf → List Block
  | none => []
  | paragraph leadsItem lines => paragraphBlocks leadsItem lines
  | indented first lines _ =>
    let content := joinNewest lines
    [.leaf (spanOf? (first ++ content)) (.code Option.none Option.none (textWithoutEnd content))]
  | fenced fence top lines =>
    let text := textWithoutEnd (if ended then joinLines lines.reverse else joinNewest lines)
    let all := lines ++ [top]
    let span := spanOf? (if ended then joinLines all.reverse else joinNewest all)
    match fence.kind with
    | .code lang info => [.leaf span (.code lang info text)]
    | .math => [.leaf span (.math text)]
  | html kind lines =>
    let text :=
      if ended && !kind.endsAtBlank then joinLines lines.reverse else joinNewest lines
    [.leaf Option.none (.html (String.ofList (glyphText text)))]
  | table alignments rows =>
    let row (cells : List (List Glyph)) : Block :=
      .branch Option.none .tableRow (cells.map (Block.text Option.none .cell))
    [.branch Option.none (.table alignments) (rows.reverse.map row)]

end OpenLeaf

end LiveMarkdown
