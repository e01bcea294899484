import LiveMarkdown.Markdown.Glyph
import LiveMarkdown.Markdown.Html
import LiveMarkdown.Markdown.Label
import LiveMarkdown.Markup.Tree

/-!
# How blocks start

A line tells by its first glyphs which block it starts. Up to three columns of white space may come
before them; four make indented code.

## Main definitions

* `Extensions`: what a text may hold beyond plain Markdown.
* `headingOpening?`, `underlineDepth?`: the two ways to write a heading.
* `Fence`, `fenceOpening?`, `Fence.isClosedBy`: fenced code and fenced mathematics.
* `ItemOpening`, `itemOpening?`: list items.
* `footnoteOpening?`: the notes that footnote references lead to.
* `startsBlock`: whether a line ends the text before it.
-/

namespace LiveMarkdown

/-- What a text may hold beyond plain Markdown. -/
structure Extensions where
  /-- Tables, strikethrough, task lists, footnotes and links without brackets. -/
  gfm : Bool
  math : Bool
  frontMatter : Bool
  deriving DecidableEq, Repr

/-- The columns of white space that make indented code. -/
def codeIndent : Nat := 4

/-- The place of glyphs in the source. -/
def spanOf? (gs : List Glyph) : Option Span :=
  match gs.head?, gs.getLast? with
  | some first, some last => some ⟨first.start, last.stop⟩
  | _, _ => none

/-! ### Headings -/

/-- A heading without the number signs that may end it. They count only behind a space, or alone. -/
def dropClosingSigns (content : List Glyph) : List Glyph :=
  let before := (content.reverse.dropWhile (fun g => g.char == '#')).reverse
  if before.length = content.length then content
  else if before.getLast?.all Glyph.isSpace then trimGlyphs before
  else content

/-- The heading that starts with one to six number signs: its depth and its content. -/
def headingOpening? (gs : List Glyph) : Option (Nat × List Glyph) :=
  let depth := glyphRun '#' gs
  let rest := gs.drop depth
  if 1 ≤ depth && depth ≤ 6 && rest.head?.all Glyph.isSpace then
    some (depth, dropClosingSigns (trimGlyphs rest))
  else none

/-- The depth of the heading that a line of equals signs or hyphens makes of the text above it. -/
def underlineDepth? (gs : List Glyph) : Option Nat :=
  let made (mark : Char) : Bool :=
    let run := glyphRun mark gs
    1 ≤ run && isBlankGlyphs (gs.drop run)
  if made '=' then some 1 else if made '-' then some 2 else none

/-! ### Fences -/

/-- What stands between two fences. -/
inductive FencedKind where
  | code (lang info : Option String)
  | math
  deriving DecidableEq, Repr

/-- The fence above a block. -/
structure Fence where
  mark : Char
  length : Nat
  indent : Nat
  kind : FencedKind
  deriving DecidableEq, Repr

/-- The text of glyphs, if there are any. -/
def decodeSome? (gs : List Glyph) : Option String :=
  if gs.isEmpty then none else some (decodeGlyphs gs)

/-- The first word behind a code fence is the language, and all that follows it is kept as well. -/
def fencedCode (gs : List Glyph) : FencedKind :=
  let info := dropAllIndent gs
  let lang := info.takeWhile (fun g => !g.isSpace)
  .code (decodeSome? lang) (decodeSome? (dropAllIndent (info.drop lang.length)))

/-- The fence that a line holds behind its indentation: three backticks or tildes at least, or two
dollar signs. Behind backticks and dollar signs no further one may follow. -/
def fenceOpening? (ext : Extensions) (indent : Nat) (gs : List Glyph) : Option Fence :=
  match gs with
  | [] => none
  | g :: _ =>
    let length := glyphRun g.char gs
    let rest := gs.drop length
    let again := (glyphChars rest).contains g.char
    match g.char with
    | '`' => if 3 ≤ length && !again then some ⟨'`', length, indent, fencedCode rest⟩ else none
    | '~' => if 3 ≤ length then some ⟨'~', length, indent, fencedCode rest⟩ else none
    | '$' =>
      if ext.math && 2 ≤ length && !again then some ⟨'$', length, indent, .math⟩ else none
    | _ => none

/-- Whether a line is the fence below a block: a run that is at least as long and stands alone. -/
def Fence.isClosedBy (f : Fence) (gs : List Glyph) : Bool :=
  let body := dropAllIndent gs
  let run := glyphRun f.mark body
  indentOf gs < codeIndent && f.length ≤ run && isBlankGlyphs (body.drop run)

/-! ### List items -/

/-- What all items of a list have in common: whether they are numbered, and the bullet or the mark
behind the number. -/
structure ItemSort where
  ordered : Bool
  mark : Char
  deriving DecidableEq, Repr

/-- The start of a list item. -/
structure ItemOpening where
  sort : ItemSort
  /-- The number of the item, where items are numbered. -/
  number : Option Nat
  /-- The place of the marker and of what separates it from the text behind it. -/
  span : Option Span
  /-- The columns by which the lines of the item are indented. -/
  width : Nat
  /-- Whether nothing follows the marker on its line. -/
  blank : Bool
  rest : List Glyph
  deriving DecidableEq, Repr

/-- The number that digits spell. -/
def numberOf (digits : List Char) : Nat :=
  digits.foldl (fun n c => n * 10 + (c.toNat - '0'.toNat)) 0

/-- The marker at the start of glyphs: its sort, its number and its length. A line of bullets that
make a thematic break is no item. Where a paragraph is interrupted the number has to be one. -/
def itemMarker? (interrupting : Bool) (gs : List Glyph) : Option (ItemSort × Option Nat × Nat) :=
  let cs := glyphChars gs
  match cs with
  | [] => none
  | c :: _ =>
    if c == '+' || ((c == '*' || c == '-') && !isThematicBreak cs) then
      some (⟨false, c⟩, none, 1)
    else
      match afterOrdinal? cs with
      | none => none
      | some rest =>
        let length := cs.length - rest.length
        let digits := cs.take (length - 1)
        if interrupting && digits != ['1'] then none
        else some (⟨true, (cs.drop (length - 1)).headD '.'⟩, some (numberOf digits), length)

/-- The list item that a line starts. Behind the marker come one to four columns of white space; if
there are more, only the first belongs to the marker. Where a paragraph is interrupted the item must
not be empty. -/
def itemOpening? (interrupting : Bool) (gs : List Glyph) : Option ItemOpening :=
  let indent := indentOf gs
  let body := gs.drop indent
  if codeIndent ≤ indent then none
  else
    match itemMarker? interrupting body with
    | none => none
    | some (sort, number, length) =>
      let after := body.drop length
      let span := spanOf? (body.take (length + 1))
      if isBlankGlyphs after then
        if interrupting then none
        else some ⟨sort, number, span, indent + length + 1, true, after⟩
      else
        let white := indentOf after
        let taken := if white ≤ 4 then white else 1
        if white = 0 then none
        else some ⟨sort, number, span, indent + length + taken, false, after.drop taken⟩

/-! ### Footnotes -/

/-- Reads the label of a footnote behind its caret, up to the closing bracket. It holds no white
space. -/
def readNoteLabelFrom? (size : Nat) : List Glyph → Option (List Glyph × List Glyph)
  | [] => none
  | g :: gs =>
    if maxLabelLength < size || g.char == '[' || g.isWhite then none
    else if g.char == ']' then if 0 < size then some ([], gs) else none
    else
      match gs with
      | e :: rest =>
        if g.char == '\\' && (e.char == '[' || e.char == '\\' || e.char == ']') then
          (readNoteLabelFrom? (size + 2) rest).map fun r => (g :: e :: r.1, r.2)
        else (readNoteLabelFrom? (size + g.size) (e :: rest)).map fun r => (g :: r.1, r.2)
      | [] => none

/-- Reads a bracket, a caret and the label of a footnote. -/
def readNoteLabel? (gs : List Glyph) : Option (List Glyph × List Glyph) :=
  if glyphChars (gs.take 2) == ['[', '^'] then readNoteLabelFrom? 0 (gs.drop 2) else none

/-- The note that a line starts: its label and what is left behind it. -/
def footnoteOpening? (gs : List Glyph) : Option (List Glyph × List Glyph) :=
  if codeIndent ≤ indentOf gs then none
  else
    match readNoteLabel? (dropAllIndent gs) with
    | some (label, colon :: rest) =>
      if colon.char == ':' then some (label, dropAllIndent rest) else none
    | _ => none

/-! ### Paragraphs -/

/-- Whether a line starts a block of its own that may follow any text. A tag of no particular
meaning counts only where that is allowed. -/
def startsBlock (ext : Extensions) (allowComplete : Bool) (gs : List Glyph) : Bool :=
  let body := dropAllIndent gs
  indentOf gs < codeIndent &&
    ((headingOpening? body).isSome || isThematicBreak (glyphChars body) ||
      (fenceOpening? ext 0 body).isSome ||
      (htmlBlockStart? allowComplete (glyphChars body)).isSome)

end LiveMarkdown
