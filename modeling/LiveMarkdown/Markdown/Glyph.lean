import LiveMarkdown.Completion.Line

/-!
# Glyphs

A finished text is read as lines of glyphs. A tab reaches to the next multiple of four columns: it
is followed by as many pads as it covers columns beyond its own, so that indentation can be counted
and cut glyph by glyph. Every glyph knows where it starts and ends in the source, in units of
sixteen bits.

## Main definitions

* `Glyph`, `Glyph.text`: a glyph, and what it is written as.
* `readGlyphs`: the glyphs of a text.
* `SourceLine`, `sourceLines`: the lines of a text.
* `glyphText`, `glyphRun`: the text of consecutive glyphs, and the run they start with.
* `indentOf`, `dropIndent`, `isBlankGlyphs`: white space at the start of a line.
-/

namespace LiveMarkdown

/-- What a glyph stands for. -/
inductive GlyphRole where
  /-- A character of the text. -/
  | plain
  /-- A column that a tab covers beyond its own. -/
  | pad
  /-- A line ending, as it is written. -/
  | lineEnd (written : List Char)
  deriving DecidableEq, Repr

/-- A character with its place in the source. A pad shows as a space and a line ending as a line
feed. -/
structure Glyph where
  char : Char
  role : GlyphRole
  start : Nat
  stop : Nat
  deriving DecidableEq, Repr

namespace Glyph

/-- Whether a glyph ends a line. -/
def isLineEnd (g : Glyph) : Bool := g.char == '\n'

/-- Whether a glyph is a space, a tab or a pad. -/
def isSpace (g : Glyph) : Bool := isSpaceOrTab g.char

/-- Whether a glyph is white space of either sort. -/
def isWhite (g : Glyph) : Bool := g.isSpace || g.isLineEnd

/-- What a glyph adds to a length: its units of sixteen bits, or its column if it is a pad. -/
def size (g : Glyph) : Nat := max 1 (g.stop - g.start)

/-- The text of a glyph that stands on its own. -/
def text (g : Glyph) : List Char :=
  match g.role with
  | .lineEnd written => written
  | _ => [g.char]

end Glyph

/-- The text of consecutive glyphs. The pads behind a tab belong to it; pads whose tab has been cut
off are spaces. -/
def glyphTextAfter (afterTab : Bool) : List Glyph → List Char
  | [] => []
  | g :: gs =>
    if g.role = .pad then
      if afterTab then glyphTextAfter true gs else g.char :: glyphTextAfter false gs
    else g.text ++ glyphTextAfter (g.char == '\t') gs

/-- The text of consecutive glyphs. -/
def glyphText (gs : List Glyph) : List Char :=
  glyphTextAfter false gs

/-- The characters of consecutive glyphs, one for each. -/
def glyphChars (gs : List Glyph) : List Char :=
  gs.map Glyph.char

/-- The length of the run of one character that glyphs start with. -/
def glyphRun (c : Char) (gs : List Glyph) : Nat :=
  (gs.takeWhile (fun g => g.char == c)).length

/-- The glyphs of a text from an offset and a column on. A null character is shown by the
replacement character. -/
def readGlyphs (offset column : Nat) : List Char → List Glyph
  | [] => []
  | '\r' :: '\n' :: cs =>
    ⟨'\n', .lineEnd ['\r', '\n'], offset, offset + 2⟩ :: readGlyphs (offset + 2) 0 cs
  | '\r' :: cs => ⟨'\n', .lineEnd ['\r'], offset, offset + 1⟩ :: readGlyphs (offset + 1) 0 cs
  | '\n' :: cs => ⟨'\n', .lineEnd ['\n'], offset, offset + 1⟩ :: readGlyphs (offset + 1) 0 cs
  | '\t' :: cs =>
    let width := 4 - column % 4
    ⟨'\t', .plain, offset, offset + 1⟩ ::
      (List.replicate (width - 1) ⟨' ', .pad, offset + 1, offset + 1⟩ ++
        readGlyphs (offset + 1) (column + width) cs)
  | c :: cs =>
    let units := if c.toNat < 0x10000 then 1 else 2
    let shown := if c = '\x00' then '\uFFFD' else c
    ⟨shown, .plain, offset, offset + units⟩ :: readGlyphs (offset + units) (column + units) cs

/-- A line of a text. Only the last line can lack a line ending. -/
structure SourceLine where
  glyphs : List Glyph
  lineEnd : Option Glyph
  deriving DecidableEq, Repr

/-- Cuts glyphs into lines. -/
def cutLines : List Glyph → List SourceLine
  | [] => []
  | g :: gs =>
    if g.isLineEnd then ⟨[], some g⟩ :: cutLines gs
    else
      match cutLines gs with
      | [] => [⟨[g], none⟩]
      | line :: lines => { line with glyphs := g :: line.glyphs } :: lines

/-- The lines of a text. A byte order mark in front of it is no part of it. -/
def sourceLines (text : List Char) : List SourceLine :=
  match text with
  | '\uFEFF' :: cs => cutLines (readGlyphs 0 0 cs)
  | cs => cutLines (readGlyphs 0 0 cs)

/-- The number of columns of white space at the start of a line. -/
def indentOf (gs : List Glyph) : Nat :=
  (gs.takeWhile Glyph.isSpace).length

/-- Removes at most `n` columns of white space at the start of a line. -/
def dropIndent (n : Nat) (gs : List Glyph) : List Glyph :=
  gs.drop (min n (indentOf gs))

/-- Removes all white space at the start of a line. -/
def dropAllIndent (gs : List Glyph) : List Glyph :=
  gs.dropWhile Glyph.isSpace

/-- Removes all white space at both ends of a line. -/
def trimGlyphs (gs : List Glyph) : List Glyph :=
  ((dropAllIndent gs).reverse.dropWhile Glyph.isSpace).reverse

/-- White space only, or nothing. -/
def isBlankGlyphs (gs : List Glyph) : Bool :=
  gs.all Glyph.isSpace

/-- Lines put together again, each with its line ending where it has one. -/
def joinLines (lines : List SourceLine) : List Glyph :=
  lines.flatMap (fun line => line.glyphs ++ line.lineEnd.toList)

end LiveMarkdown
