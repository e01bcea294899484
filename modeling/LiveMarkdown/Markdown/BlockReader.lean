import LiveMarkdown.Markdown.Container

/-!
# Reading blocks

A text is read line by line. What has been read so far is a stack of open containers, the leaf that
is open in the innermost of them, and the blocks that are finished.

## Main definitions

* `BlockReader`: what has been read so far.
* `ItemLead`: what stands between the marker of a list item and a place.
* `BlockReader.addToLeaf`: what a line does to the open leaf.
* `BlockReader.readInside`, `BlockReader.readOutside`: a line that all of the open containers have
  taken, and one that some of them have not.
* `BlockReader.readLine`: what a line does.
* `readBlocks`: the blocks of a text.

## Lines that do not reach the open leaf

A line that one of the open containers refuses still continues an open paragraph, as long as it
starts nothing of its own. A tag that stands alone takes the place of the paragraph where it is. Any
other line closes the containers that refused it.
-/

namespace LiveMarkdown

/-- What stands between the marker of a list item and the place where the next block may start. -/
inductive ItemLead where
  | nothing
  /-- The end of the marker's line, with no white space in front of it. -/
  | lineEnd
  /-- Something else, or there is no such marker. -/
  | other
  deriving DecidableEq, Repr

/-- What stands there when a line has been read. -/
def ItemLead.behind (gs : List Glyph) : ItemLead → ItemLead
  | nothing => if gs.isEmpty then lineEnd else other
  | lineEnd => other
  | other => other

/-- What has been read so far. -/
structure BlockReader where
  /-- The open containers, innermost first. -/
  frames : List Frame
  /-- The finished blocks outside of all containers, newest first. -/
  roots : List Block
  leaf : OpenLeaf
  /-- The line endings behind the last text. -/
  ends : LineEnds
  /-- What stands behind the last marker of a list item. -/
  lead : ItemLead
  deriving Repr

namespace BlockReader

/-- Nothing has been read yet. -/
def empty : BlockReader := ⟨[], [], .none, .behindText, .other⟩

/-- Adds a finished block to the innermost container. -/
def push (r : BlockReader) (b : Block) : BlockReader :=
  match r.frames with
  | [] => { r with roots := b :: r.roots }
  | f :: fs => { r with frames := { f with children := b :: f.children } :: fs }

/-- Adds finished blocks to the innermost container, in the place of the open leaf. -/
def finishLeaf (blocks : List Block) (r : BlockReader) : BlockReader :=
  blocks.foldl push { r with leaf := .none }

/-- Closes the open leaf. `ended` says whether it ended by itself. -/
def closeLeaf (ended : Bool) (r : BlockReader) : BlockReader :=
  let ends := if ended && r.leaf.holdsLineEnd then .behindText else r.ends
  { r with ends }.finishLeaf (r.leaf.close ended)

/-- Closes so many of the innermost containers. -/
def closeFrames : Nat → BlockReader → BlockReader
  | 0, r => r
  | n + 1, r =>
    match r.frames with
    | [] => r
    | f :: fs =>
      let outer := { r with frames := fs, ends := r.ends.behindContainer }
      closeFrames n (outer.push (f.close r.ends))

/-- Goes on behind what the containers leave at the start of a line. -/
def passMark (mark : LineMark) (r : BlockReader) : BlockReader :=
  { r with ends := r.ends.behind mark }

/-- Goes on behind a line, which may be blank. -/
def passLineEnd (blank : Bool) (line : SourceLine) (r : BlockReader) : BlockReader :=
  let ends :=
    if !blank then .behindLine
    else if line.lineEnd.isSome then r.ends.more
    else r.ends
  { r with ends }

/-- Closes everything. The line ending at the end of the text belongs to the open leaf if all of its
containers would take the empty line behind it. -/
def closeAll (r : BlockReader) : List Block :=
  let ended := (passLine [] .none [] r.frames.reverse).left.isEmpty
  ((r.closeLeaf ended).closeFrames r.frames.length).roots.reverse

/-! ### Leaves -/

/-- Opens the HTML block that a line starts. It may end on the same line. -/
def openHtml (r : BlockReader) (line : SourceLine) (kind : HtmlBlockKind) (behind : List Char) :
    BlockReader :=
  let r := { r with leaf := .html kind [line] }
  if kind.endsOn true behind then r.closeLeaf false else r

/-- Opens the leaf that a line starts, where none is open. -/
def startLeaf (ext : Extensions) (line : SourceLine) (r : BlockReader) : BlockReader :=
  let gs := line.glyphs
  let indent := indentOf gs
  let body := dropAllIndent gs
  let leadsItem := indent == 0 && r.lead != .other
  let r := { r with lead := r.lead.behind gs }
  if isBlankGlyphs gs then r
  else if codeIndent ≤ indent then
    { r with leaf := .indented gs [{ line with glyphs := dropIndent codeIndent gs }] [] }
  else if isThematicBreak (glyphChars body) then r.push (.leaf none .thematicBreak)
  else
    match headingOpening? body, fenceOpening? ext indent body,
        htmlBlockStart? true (glyphChars body) with
    | some (depth, content), _, _ => r.push (.text (spanOf? body) (.heading depth) content)
    | none, some fence, _ => { r with leaf := .fenced fence { line with glyphs := body } [] }
    | none, none, some (kind, behind) => r.openHtml line kind behind
    | none, none, none => { r with leaf := .paragraph leadsItem [{ line with glyphs := body }] }

/-- Closes the open leaf and opens the one that a line starts. -/
def restartLeaf (ext : Extensions) (line : SourceLine) (r : BlockReader) : BlockReader :=
  (r.closeLeaf false).startLeaf ext line

/-- Opens the leaf that a line starts which has closed containers. Indented code does not go on
behind such a line. -/
def startLeafOutside (ext : Extensions) (line : SourceLine) (r : BlockReader) : BlockReader :=
  let r := r.startLeaf ext line
  match r.leaf with
  | .indented _ _ _ => r.closeLeaf false
  | _ => r

/-- Makes the last line of an open paragraph and the line behind it the head of a table. If the last
line is a tag that stands alone, the two lines are HTML instead. -/
def openTable (alignments : List Alignment) (line : SourceLine) (leadsItem : Bool)
    (lines : List SourceLine) (r : BlockReader) : BlockReader :=
  let heads := (lines.head?.map SourceLine.glyphs).getD []
  let before := paragraphBlocks leadsItem (lines.drop 1)
  let leaf : OpenLeaf :=
    match htmlBlockStart? true (glyphChars (dropAllIndent heads)) with
    | some (kind, _) => .html kind (line :: lines.take 1)
    | none => .table alignments [rowCells heads]
  { r.finishLeaf before with leaf }

/-- What a line that is neither blank nor indented by four columns does to an open paragraph: it
makes the last line of it the head of a table or all of it a heading, it starts another leaf, or it
is one more line of text. -/
def addToParagraph (ext : Extensions) (line : SourceLine) (leadsItem : Bool)
    (lines : List SourceLine) (r : BlockReader) : BlockReader :=
  let gs := line.glyphs
  let heads := (lines.head?.map SourceLine.glyphs).getD []
  let alignments? := if ext.gfm then tableHead? heads gs else none
  match alignments?, underlineDepth? (dropAllIndent gs) with
  | some alignments, _ => r.openTable alignments line leadsItem lines
  | none, some depth =>
    match underlinedBlocks? depth lines with
    | some blocks => r.finishLeaf blocks
    | none => r.restartLeaf ext line
  | none, none =>
    if startsBlock ext false gs then r.restartLeaf ext line
    else { r with leaf := .paragraph leadsItem (line :: lines) }

/-- What a line does to the open leaf when all open containers have taken it. -/
def addToLeaf (ext : Extensions) (line : SourceLine) (r : BlockReader) : BlockReader :=
  let gs := line.glyphs
  let blank := isBlankGlyphs gs
  let deep : Bool := codeIndent ≤ indentOf gs
  match r.leaf with
  | .none => r.startLeaf ext line
  | .paragraph leadsItem lines =>
    if blank then r.closeLeaf false
    else if deep then { r with leaf := .paragraph leadsItem (line :: lines) }
    else r.addToParagraph ext line leadsItem lines
  | .indented first lines blanks =>
    if deep then
      let code := { line with glyphs := dropIndent codeIndent gs }
      { r with leaf := .indented first (code :: (blanks ++ lines)) [] }
    else if blank then
      { r with leaf := .indented first lines ({ line with glyphs := [] } :: blanks) }
    else r.restartLeaf ext line
  | .fenced fence top lines =>
    if fence.isClosedBy gs then r.closeLeaf true
    else
      let text := { line with glyphs := dropIndent fence.indent gs }
      { r with leaf := .fenced fence top (text :: lines) }
  | .html kind lines =>
    if kind.endsAtBlank && blank then r.closeLeaf false
    else
      let r := { r with leaf := .html kind (line :: lines) }
      if kind.endsOn false (glyphChars gs) then r.closeLeaf false else r
  | .table alignments rows =>
    if blank then r.closeLeaf false
    else if deep || startsBlock ext true gs then r.restartLeaf ext line
    else { r with leaf := .table alignments (rowCells gs :: rows) }

/-- Whether a line of which not all containers have taken their part continues an open paragraph. It
is one more line of text unless it starts a block of its own. -/
def continuesParagraph (ext : Extensions) (gs : List Glyph) (leaf : OpenLeaf) : Bool :=
  match leaf with
  | .paragraph _ _ => !isBlankGlyphs gs && !startsBlock ext true gs
  | _ => false

/-- Whether such a line is a tag that stands alone, but not on the last line of the text. It ends an
open paragraph, but none of the containers. -/
def replacesParagraph (ext : Extensions) (line : SourceLine) (leaf : OpenLeaf) : Bool :=
  match leaf with
  | .paragraph _ _ =>
    line.lineEnd.isSome && startsBlock ext true line.glyphs && !startsBlock ext false line.glyphs
  | _ => false

/-- Adds a line to the open paragraph. -/
def addText (line : SourceLine) (r : BlockReader) : BlockReader :=
  match r.leaf with
  | .paragraph leadsItem lines => { r with leaf := .paragraph leadsItem (line :: lines) }
  | _ => r

/-! ### Lines -/

/-- Opens the containers that a line starts inside those that are open, and then the leaf. The
innermost of them has just been opened. -/
def openBlocks (ext : Extensions) (interrupting : Bool) (line : SourceLine) (r : BlockReader) :
    BlockReader :=
  let (opened, rest) := openFrames ext interrupting [] line.glyphs
  let frames := opened ++ r.frames
  let lead : ItemLead := if frames.head?.any Frame.isList then .nothing else .other
  let line := { line with glyphs := rest }
  ({ r with frames, lead }.startLeaf ext line).passLineEnd false line

/-- Opens the next item of the innermost list. -/
def openNextItem (o : ItemOpening) (r : BlockReader) : BlockReader :=
  match r.frames with
  | ⟨.list l, children⟩ :: fs => { r with frames := ⟨.list (l.next r.ends children o), []⟩ :: fs }
  | _ => r

/-- What a line does that all open containers have taken, and that opens none. -/
def readInside (ext : Extensions) (mark : LineMark) (line : SourceLine) (r : BlockReader) :
    BlockReader :=
  let blank := isBlankGlyphs line.glyphs && !r.leaf.keepsBlank line.glyphs
  (r.passMark mark).addToLeaf ext line |>.passLineEnd blank line

/-- What a line does that the innermost `count` containers have not taken, and that opens none. -/
def readOutside (ext : Extensions) (mark : LineMark) (count : Nat) (line : SourceLine)
    (r : BlockReader) : BlockReader :=
  if continuesParagraph ext line.glyphs r.leaf then (r.addText line).passLineEnd false line
  else if replacesParagraph ext line r.leaf then
    { r.closeLeaf false with leaf := .html .complete [line] }.passLineEnd false line
  else
    let outer := ((r.closeLeaf false).closeFrames count).passMark mark
    (outer.startLeafOutside ext line).passLineEnd (isBlankGlyphs line.glyphs) line

/-- What a line does that has gone through the open containers. -/
def readPassed (ext : Extensions) (lineEnd : Option Glyph) (p : Passage) (r : BlockReader) :
    BlockReader :=
  let line : SourceLine := ⟨p.rest, lineEnd⟩
  let count := p.left.length
  let r := { r with frames := p.left.reverse ++ p.kept }
  match p.nextItem with
  | some opening =>
    let item := ((r.closeLeaf true).closeFrames (count - 1)).passMark p.mark |>.openNextItem opening
    item.openBlocks ext false line
  | none =>
    let interrupting := count == 0 && r.leaf.isInterrupted
    let blocked := count == 0 && r.leaf.isOpaque
    if !blocked && (containerOpening? ext interrupting p.rest).isSome then
      let outer := ((r.closeLeaf true).passMark p.mark).closeFrames count
      outer.openBlocks ext interrupting line
    else if count == 0 then r.readInside ext p.mark line
    else r.readOutside ext p.mark count line

/-- What a line does. -/
def readLine (ext : Extensions) (r : BlockReader) (line : SourceLine) : BlockReader :=
  r.readPassed ext line.lineEnd (passLine [] .none line.glyphs r.frames.reverse)

/-- What a line does where no containers are looked for. -/
def readBareLine (ext : Extensions) (r : BlockReader) (line : SourceLine) : BlockReader :=
  r.readInside ext .none line

end BlockReader

/-! ### Front matter -/

/-- A line of three hyphens above or below the front matter. -/
def isFrontMatterFence (gs : List Glyph) : Bool :=
  glyphChars (gs.take 3) == ['-', '-', '-'] && isBlankGlyphs (gs.drop 3)

/-- The front matter whose first line has been read, and the lines behind it. -/
def frontMatterFrom? (lines : List SourceLine) : Option (Block × List SourceLine) :=
  let body := lines.takeWhile (fun line => !isFrontMatterFence line.glyphs)
  match lines.drop body.length with
  | [] => none
  | _ :: rest => some (.leaf none (.yaml (textWithoutEnd (joinLines body))), rest)

/-- Whether a text starts with the line above front matter. -/
def startsFrontMatter (lines : List SourceLine) : Bool :=
  match lines with
  | line :: _ => isFrontMatterFence line.glyphs && line.lineEnd.isSome
  | [] => false

/-- The blocks of lines. -/
def blocksOf (ext : Extensions) (lines : List SourceLine) : List Block :=
  (lines.foldl (BlockReader.readLine ext) .empty).closeAll

/-- The blocks of a text. A text that starts like front matter but never ends it is read without any
containers. -/
def readBlocks (ext : Extensions) (text : List Char) : List Block :=
  let lines := sourceLines text
  if ext.frontMatter && startsFrontMatter lines then
    match frontMatterFrom? (lines.drop 1) with
    | some (matter, rest) => matter :: blocksOf ext rest
    | none => (lines.foldl (BlockReader.readBareLine ext) .empty).closeAll
  else blocksOf ext lines

end LiveMarkdown
