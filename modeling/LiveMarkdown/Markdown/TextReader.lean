import LiveMarkdown.Markdown.AddressLinks
import LiveMarkdown.Markdown.CodeSpan
import LiveMarkdown.Markdown.LinkTarget
import LiveMarkdown.Markdown.TextPiece

/-!
# Reading running text

Running text is cut into pieces from left to right. Most pieces are told by their first glyph; a
closing bracket looks back for the bracket it may close, and makes one piece of all that lies
between them.

## Main definitions

* `TextSetting`: what a text is read in.
* `TextReader`: the pieces that have been read.
* `Reading`: what a glyph and those behind it become.
* `TextReader.read`: what the next glyphs become.
* `readText`: the trees of running text.
-/

namespace LiveMarkdown

/-- What a text is read in: the extensions, the labels that are defined, and whether it is a cell of
a table. -/
structure TextSetting where
  ext : Extensions
  references : References
  inCell : Bool

/-- The pieces that have been read, newest first, and what is known about the place behind them. -/
structure TextReader where
  pieces : List TextPiece
  previous : Option Char
  /-- Whether the last character was escaped. -/
  escaped : Bool
  /-- Whether the first run was one of tildes. -/
  tildesFirst : Option Bool

/-- What a glyph and those behind it become: all pieces up to there, newest first, and the number of
glyphs behind the first. -/
structure Reading where
  pieces : List TextPiece
  further : Nat
  escaped : Bool := false

namespace TextReader

/-- Nothing has been read yet. -/
def empty : TextReader := ⟨[], none, false, none⟩

/-- One more piece. -/
def add (r : TextReader) (p : TextPiece) (further : Nat) : Reading :=
  ⟨p :: r.pieces, further, false⟩

/-- One more tree without children. -/
def addLeaf (r : TextReader) (l : MarkupLeaf) (further : Nat) : Reading :=
  r.add (.tree (.leaf none l)) further

/-- Whether a mark repeats the one before it, so that it belongs to a run that has been text. -/
def repeatsMark (r : TextReader) (mark : Char) : Bool :=
  r.previous == some mark && !r.escaped

/-! ### Line endings -/

/-- Pieces, newest first, without the white space at their end. -/
def dropTrailingSpace (pieces : List TextPiece) : List TextPiece :=
  pieces.dropWhile TextPiece.isSpace

/-- A line ending. White space on both sides of it is dropped; two spaces in front of it make a line
break of it, unless there is a tab among them. -/
def readLineEnd (r : TextReader) (g : Glyph) (rest : List Glyph) : Reading :=
  let space := r.pieces.takeWhile TextPiece.isSpace
  let isTab : TextPiece → Bool
    | .data g => g.char == '\t'
    | _ => false
  let ending : TextPiece :=
    if 2 ≤ space.length && !space.any isTab then .tree (.leaf none .lineBreak) else .literal g.text
  ⟨ending :: dropTrailingSpace r.pieces, indentOf rest, false⟩

/-! ### Escapes and references -/

/-- A backslash takes the meaning from punctuation, and makes a line break of a line ending. -/
def readEscape? (r : TextReader) (rest : List Glyph) : Option Reading :=
  match rest with
  | [] => none
  | e :: behind =>
    if e.isLineEnd then some (r.addLeaf .lineBreak (1 + indentOf behind))
    else if isEscapable e.char then
      some { r.add (.literal [e.char]) 1 with escaped := true }
    else none

/-- A character reference. -/
def readReference? (r : TextReader) (rest : List Glyph) : Option Reading :=
  (characterReference? (glyphChars rest)).map fun (shown, used) => r.add (.literal shown) used

/-! ### Spans that are not Markdown -/

/-- A code span. -/
def readCode? (s : TextSetting) (r : TextReader) (gs : List Glyph) : Option Reading :=
  if r.repeatsMark '`' then none
  else
    (readSpan? '`' gs).map fun span =>
      let value := glyphText (dropPadding span.content)
      let value := if s.inCell then unescapePipes value else value
      let place := spanOf? (gs.take span.length)
      r.add (.tree (.leaf place (.inlineCode (String.ofList value)))) (span.length - 1)

/-- Inline mathematics. -/
def readMath? (s : TextSetting) (r : TextReader) (gs : List Glyph) : Option Reading :=
  if !s.ext.math || r.repeatsMark '$' then none
  else
    (readSpan? '$' gs).map fun span =>
      let value := glyphText (dropPadding span.content)
      let place := spanOf? (gs.take span.length)
      r.add (.tree (.leaf place (.inlineMath (String.ofList value)))) (span.length - 1)

/-- HTML as it is written, without the indentation of its further lines. At most `indent` columns
are dropped where the glyphs start. -/
def htmlGlyphs (indent : Nat) : List Glyph → List Glyph
  | [] => []
  | g :: gs =>
    if g.isSpace && 0 < indent then htmlGlyphs (indent - 1) gs
    else g :: htmlGlyphs (if g.isLineEnd then codeIndent - 1 else 0) gs

/-- An address in angle brackets, or a piece of HTML. -/
def readAngle? (r : TextReader) (gs : List Glyph) : Option Reading :=
  match angleAddress? (glyphChars (gs.drop 1)), htmlInlineLength? (glyphChars gs) with
  | some address, _ => some (r.add (.tree address.link) (address.written.length + 1))
  | none, some length =>
    let value := glyphText (htmlGlyphs 0 (gs.take length))
    some (r.addLeaf (.html (String.ofList value)) (length - 1))
  | none, none => none

/-- The characters of the word in front, with one character behind it. -/
def wordChars (gs : List Glyph) : List Char :=
  glyphChars (gs.take ((gs.takeWhile (fun g => !g.isWhite)).length + 1))

/-- An address without brackets around it, but not inside of a bracket that is still open. None
starts behind a letter. -/
def readAddress? (s : TextSetting) (r : TextReader) (gs : List Glyph) : Option Reading :=
  if !s.ext.gfm || r.previous.any Char.isAlpha ||
      !gs.head?.any (fun g => isBareMailboxChar g.char) then none
  else
    match bareAddress? r.previous (wordChars gs) with
    | none => none
    | some address =>
      if r.pieces.any TextPiece.isOpenBracket then none
      else some (r.add (.tree address.link) (address.written.length - 1))

/-! ### Runs -/

/-- A run of asterisks or underscores. Which sides of a word it may stand on depends on the
characters around it: it may always stand next to a tilde, and underscores do nothing inside of a
word. -/
def emphasisRun (s : TextSetting) (previous : Option Char) (gs : List Glyph) : Run :=
  let mark := (gs.head?.map Glyph.char).getD '*'
  let size := glyphRun mark gs
  let next := (gs.drop size).head?.map Glyph.char
  let before := flankOf previous
  let after := flankOf next
  let isTilde (c : Char) : Bool := s.ext.gfm && c == '~'
  let opens :=
    after == .other || (after == .punctuation && before != .other) || next.any isTilde
  let closes :=
    before == .other || (before == .punctuation && after != .other) || previous.any isTilde
  if mark == '*' then ⟨mark, size, opens, closes⟩
  else ⟨mark, size, opens && (before != .other || !closes), closes && (after != .other || !opens)⟩

/-- A run of one or two tildes. -/
def tildeRun? (s : TextSetting) (r : TextReader) (gs : List Glyph) : Option Run :=
  let size := glyphRun '~' gs
  let before := flankOf r.previous
  let after := flankOf ((gs.drop size).head?.map Glyph.char)
  if !s.ext.gfm || r.repeatsMark '~' || 2 < size then none
  else
    some {
      mark := '~', size
      opens := after == .other || (after == .punctuation && before != .other)
      closes := before == .other || (before == .punctuation && after != .other) }

/-! ### Brackets -/

/-- A reference to a note that is defined, at an opening bracket. -/
def readNote? (s : TextSetting) (r : TextReader) (gs : List Glyph) : Option Reading := do
  let (label, rest) ← if s.ext.gfm then readNoteLabel? gs else none
  let key := labelKey (glyphText label)
  if s.references.notes.contains key then
    let note := MarkupLeaf.footnoteReference (String.ofList key) (some (decodeGlyphs label))
    return r.addLeaf note (gs.length - rest.length - 1)
  else none

/-- A bracket among pieces, newest first: those behind it, itself, and those before it. -/
structure BracketPlace where
  inside : List TextPiece
  bracket : Bracket
  before : List TextPiece

/-- The last bracket that is still open. -/
def findBracket : List TextPiece → Option BracketPlace
  | [] => none
  | p :: ps =>
    let further := (findBracket ps).map fun f => { f with inside := p :: f.inside }
    match p with
    | .bracket b => if b.balanced then further else some ⟨[], b, ps⟩
    | _ => further

/-- No link may start in front of a link that it would contain. -/
def deactivate : TextPiece → TextPiece
  | .bracket b => .bracket (if b.image then b else { b with active := false })
  | p => p

mutual

/-- The text that a tree shows. -/
def shownText : MarkupTree → List Char
  | .leaf _ l =>
    match l with
    | .text value => value.toList
    | .inlineCode value => value.toList
    | .inlineMath value => value.toList
    | .html value => value.toList
    | .image _ _ alt => (alt.getD "").toList
    | .imageReference _ alt => (alt.getD "").toList
    | _ => []
  | .branch _ _ ts => shownTexts ts

/-- The text that trees show. -/
def shownTexts : List MarkupTree → List Char
  | [] => []
  | t :: ts => shownText t ++ shownTexts ts

end

/-- The link or the image that is made of the pieces between two brackets. -/
def linkTree (image : Bool) (inside : List TextPiece) (target : LinkTarget) : MarkupTree :=
  let children := treesBetween inside.reverse
  let alt := some (String.ofList (shownTexts children))
  match image, target with
  | true, .resource url title => .leaf none (.image url title alt)
  | true, .reference key => .leaf none (.imageReference (String.ofList key) alt)
  | false, .resource url title => .branch none (.link url title) children
  | false, .reference key => .branch none (.linkReference (String.ofList key)) children

/-- Whether a label that looks like that of a note may be one: it holds no brackets and no links. -/
def isPlainLabel (inside : List TextPiece) : Bool :=
  inside.all fun p =>
    match p with
    | .bracket _ => false
    | .tree (.branch _ b _) => !b.isLink
    | .tree (.leaf _ l) =>
      (match l with
       | .image _ _ _ => false
       | .imageReference _ _ => false
       | .footnoteReference _ _ => false
       | _ => true)
    | _ => true

/-- The pieces at a closing bracket that makes no link: the bracket before it is balanced, and an
exclamation mark may turn out to stand in front of a reference to a note. -/
def failBracket (s : TextSetting) (place : BracketPlace) (label : List Glyph) (close : Glyph) :
    List TextPiece :=
  let b := place.bracket
  let key := labelKey (glyphText label)
  if s.ext.gfm && b.active && b.image && key.head? == some '^' &&
      s.references.notes.contains (key.drop 1) && isPlainLabel place.inside then
    let note := MarkupLeaf.footnoteReference (String.ofList (key.drop 1))
      (some (decodeGlyphs (label.drop 1)))
    .tree (.leaf none note) :: .literal ['!'] :: place.before
  else .data close :: (place.inside ++ .bracket { b with balanced := true } :: place.before)

/-- A closing bracket, with what it makes of the bracket before it. -/
def readClose (s : TextSetting) (r : TextReader) (close : Glyph) (rest : List Glyph) : Reading :=
  match findBracket r.pieces with
  | none => r.add (.data close) 0
  | some place =>
    let b := place.bracket
    let label := b.behind.take (b.behind.length - (rest.length + 1))
    let key := labelKey (glyphText label)
    let target? := if b.active then linkTarget? s.references.definitions key rest else none
    match target? with
    | none => ⟨failBracket s place label close, 0, false⟩
    | some (target, behind) =>
      let before := if b.image then place.before else place.before.map deactivate
      ⟨.tree (linkTree b.image place.inside target) :: before, rest.length - behind.length, false⟩

/-! ### The whole text -/

/-- What the next glyphs become if the first of them has a meaning. -/
def readMark? (s : TextSetting) (r : TextReader) (g : Glyph) (rest : List Glyph) : Option Reading :=
  let gs := g :: rest
  match g.char with
  | '\n' => some (r.readLineEnd g rest)
  | '\\' => r.readEscape? rest
  | '&' => r.readReference? rest
  | '`' => r.readCode? s gs
  | '$' => r.readMath? s gs
  | '<' => r.readAngle? gs
  | '*' => some (r.add (.run (emphasisRun s r.previous gs)) (glyphRun '*' rest))
  | '_' => some (r.add (.run (emphasisRun s r.previous gs)) (glyphRun '_' rest))
  | '~' => (r.tildeRun? s gs).map fun run => r.add (.run run) (run.size - 1)
  | '!' =>
    if rest.head?.any (fun b => b.char == '[') then
      some (r.add (.bracket ⟨true, true, false, rest.drop 1⟩) 1)
    else none
  | '[' => (r.readNote? s gs).or (some (r.add (.bracket ⟨false, true, false, rest⟩) 0))
  | ']' => some (r.readClose s g rest)
  | _ => none

/-- What the next glyphs become. -/
def read (s : TextSetting) (r : TextReader) (g : Glyph) (rest : List Glyph) : Reading :=
  ((r.readAddress? s (g :: rest)).or (r.readMark? s g rest)).getD (r.add (.data g) 0)

/-- Whether the newest piece is a run, and if so, one of tildes. -/
def newestRun? (pieces : List TextPiece) : Option Bool :=
  match pieces with
  | .run run :: _ => some (run.mark == '~')
  | _ => none

/-- Reads glyphs to their end. -/
def readAll (s : TextSetting) (r : TextReader) (gs : List Glyph) : TextReader :=
  match gs with
  | [] => r
  | g :: rest =>
    let reading := r.read s g rest
    let taken := g :: rest.take reading.further
    let next : TextReader :=
      { pieces := reading.pieces
        previous := taken.getLast?.map Glyph.char
        escaped := reading.escaped
        tildesFirst := r.tildesFirst.or (newestRun? reading.pieces) }
    next.readAll s (rest.drop reading.further)
termination_by gs.length
decreasing_by simp only [List.length_cons, List.length_drop]; omega

/-- The trees of what has been read. White space at the end of it is dropped. -/
def trees (r : TextReader) : List MarkupTree :=
  treesOfText (r.tildesFirst.getD false) (dropTrailingSpace r.pieces).reverse

end TextReader

/-- The trees of running text behind the given character, before the addresses left in it are
links. -/
def readText (s : TextSetting) (previous : Option Char) (gs : List Glyph) : List MarkupTree :=
  ({ TextReader.empty with previous }.readAll s gs).trees

end LiveMarkdown
