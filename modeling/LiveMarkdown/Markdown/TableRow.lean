import LiveMarkdown.Markdown.Opening

/-!
# Table rows

A table is a row of heads, a row of delimiters with as many cells, and any number of further rows.
Cells are separated by pipes that no backslash escapes; the outer pipes of a row may be left out.

## Main definitions

* `rowCells`: the cells of a row.
* `delimiterCells?`: the alignments that a row of delimiters gives to its columns.
* `tableHead?`: the alignments of the table that two lines start.
-/

namespace LiveMarkdown

/-- Puts glyphs in front of the first piece. -/
def consPiece (gs : List Glyph) : List (List Glyph) → List (List Glyph)
  | [] => [gs]
  | piece :: pieces => (gs ++ piece) :: pieces

/-- The pieces between the pipes of a row that no backslash escapes. -/
def rowPieces : List Glyph → List (List Glyph)
  | [] => [[]]
  | g :: gs =>
    if g.char == '|' then [] :: rowPieces gs
    else
      match gs with
      | e :: rest =>
        if g.char == '\\' && (e.char == '\\' || e.char == '|') then
          consPiece [g, e] (rowPieces rest)
        else consPiece [g] (rowPieces (e :: rest))
      | [] => [[g]]

/-- Removes the empty piece in front of a first pipe, and the one behind a last pipe unless it is
all there is. -/
def dropOuterPieces (pieces : List (List Glyph)) : List (List Glyph) :=
  let inner :=
    match pieces with
    | first :: second :: rest =>
      if isBlankGlyphs first then second :: rest else pieces
    | _ => pieces
  if 2 ≤ inner.length && inner.getLast?.all isBlankGlyphs then inner.dropLast else inner

/-- The cells of a row, without the white space around them. -/
def rowCells (gs : List Glyph) : List (List Glyph) :=
  (dropOuterPieces (rowPieces (trimGlyphs gs))).map trimGlyphs

/-- The alignment that a cell of hyphens gives to its column by its colons. -/
def alignmentOfDelimiter (cell : List Char) : Alignment :=
  match cell.head? == some ':', cell.getLast? == some ':' with
  | true, true => .center
  | true, false => .left
  | false, true => .right
  | false, false => .none

/-- The alignments that a row of delimiters gives to its columns. A row without a pipe or a colon is
none. -/
def delimiterCells? (gs : List Glyph) : Option (List Alignment) :=
  let row := glyphChars (trimGlyphs gs)
  let cells := (rowCells gs).map glyphChars
  if indentOf gs < codeIndent && (row.contains '|' || row.contains ':') &&
      cells.all isSeparatorCell then
    some (cells.map alignmentOfDelimiter)
  else none

/-- The alignments of the table that a row of heads and a row of delimiters start. -/
def tableHead? (heads delimiters : List Glyph) : Option (List Alignment) :=
  if codeIndent ≤ indentOf heads || glyphChars (trimGlyphs heads) == ['|'] then none
  else
    (delimiterCells? delimiters).filter fun alignments =>
      alignments.length == (rowCells heads).length

end LiveMarkdown
