import LiveMarkdown.Markdown.CharacterReference
import LiveMarkdown.Markdown.Glyph
import LiveMarkdown.Text.CaseFold

/-!
# Labels, destinations and titles

Links, images and definitions are made of the same three parts: a label in brackets, by which a
definition is found; the destination, bare or in angle brackets; and a title in quotes or
parentheses. Each part is read from the glyphs in front of it, and what is left behind it is handed
on.

## Main definitions

* `readLabel?`: a label whose opening bracket has been read.
* `labelKey`: what two labels must agree in to mean the same.
* `readDestination?`, `readTitle?`: the other two parts.
* `decodeGlyphs`: the text that glyphs are read as.
-/

namespace LiveMarkdown

/-- The longest label that may be written. -/
def maxLabelLength : Nat := 999

/-- Reads a label whose opening bracket has been read: its glyphs and what is left behind the
closing bracket. Glyphs of so much length have been read already, and `seen` says whether one of
them was not blank. A bracket inside a label has to be escaped. -/
def readLabelFrom? (size : Nat) (seen : Bool) : List Glyph → Option (List Glyph × List Glyph)
  | [] => none
  | g :: gs =>
    if maxLabelLength < size || g.char == '[' then none
    else if g.char == ']' then if seen then some ([], gs) else none
    else if g.isLineEnd then
      (readLabelFrom? size seen gs).map fun r => (g :: r.1, r.2)
    else
      match gs with
      | e :: rest =>
        if g.char == '\\' && (e.char == '[' || e.char == '\\' || e.char == ']') then
          (readLabelFrom? (size + 2) true rest).map fun r => (g :: e :: r.1, r.2)
        else
          (readLabelFrom? (size + g.size) (seen || !g.isSpace) (e :: rest)).map
            fun r => (g :: r.1, r.2)
      | [] => none

/-- Reads a label whose opening bracket has been read. -/
def readLabel? (gs : List Glyph) : Option (List Glyph × List Glyph) :=
  readLabelFrom? 0 false gs

/-- A space, a tab or part of a line ending. -/
def isLabelBlank (c : Char) : Bool :=
  isSpaceOrTab c || c == '\n' || c == '\r'

/-- Every run of white space as a single space. `blank` says whether white space came before. -/
def collapseBlanks (blank : Bool) : List Char → List Char
  | [] => []
  | c :: cs =>
    if isLabelBlank c then
      if blank then collapseBlanks true cs else ' ' :: collapseBlanks true cs
    else c :: collapseBlanks false cs

/-- What two labels must agree in to mean the same: white space counts only between words, and upper
and lower case are one. -/
def labelKey (label : List Char) : List Char :=
  let words := collapseBlanks true label
  foldCase (if words.getLast? == some ' ' then words.dropLast else words)

/-- The text that glyphs are read as, with references and escapes resolved. -/
def decodeGlyphs (gs : List Glyph) : String :=
  String.ofList (decodeString (glyphText gs))

/-- Removes white space, line endings included. -/
def dropWhite (gs : List Glyph) : List Glyph :=
  gs.dropWhile Glyph.isWhite

/-- A control character or a space, neither of which a bare destination can hold. -/
def isControlOrSpace (c : Char) : Bool :=
  c.toNat ≤ 0x20 || c.toNat == 0x7F

/-- Reads a destination in angle brackets, the first of which has been read. -/
def readEnclosed? : List Glyph → Option (List Glyph × List Glyph)
  | [] => none
  | g :: gs =>
    if g.char == '>' then some ([], gs)
    else if g.char == '<' || g.isLineEnd then none
    else
      match gs with
      | e :: rest =>
        if g.char == '\\' && (e.char == '<' || e.char == '>' || e.char == '\\') then
          (readEnclosed? rest).map fun r => (g :: e :: r.1, r.2)
        else (readEnclosed? (e :: rest)).map fun r => (g :: r.1, r.2)
      | [] => none

/-- Reads a bare destination up to white space or a closing parenthesis too many. So many
parentheses are open; where `limit` says so, no more than that may be. -/
def readBare? (limit : Option Nat) (depth : Nat) : List Glyph → Option (List Glyph × List Glyph)
  | [] => if depth = 0 then some ([], []) else none
  | g :: gs =>
    if depth = 0 && (g.char == ')' || g.isWhite) then some ([], g :: gs)
    else if g.char == ')' then (readBare? limit (depth - 1) gs).map fun r => (g :: r.1, r.2)
    else if g.char == '(' then
      if limit.all (depth < ·) then
        (readBare? limit (depth + 1) gs).map fun r => (g :: r.1, r.2)
      else none
    else if isControlOrSpace g.char then none
    else
      match gs with
      | e :: rest =>
        if g.char == '\\' && (e.char == '(' || e.char == ')' || e.char == '\\') then
          (readBare? limit depth rest).map fun r => (g :: e :: r.1, r.2)
        else (readBare? limit depth (e :: rest)).map fun r => (g :: r.1, r.2)
      | [] => if depth = 0 then some ([g], []) else none

/-- Reads a destination: its glyphs and what is left behind it. -/
def readDestination? (limit : Option Nat) (gs : List Glyph) : Option (List Glyph × List Glyph) :=
  match gs with
  | [] => none
  | g :: rest =>
    if g.char == '<' then readEnclosed? rest
    else if g.char == ')' || isControlOrSpace g.char then none
    else readBare? limit 0 gs

/-- Reads a title up to the mark that closes it. White space at the start of a line is no part of
it; `fresh` says that the line has just started. -/
def readTitleTo? (close : Char) (fresh : Bool) : List Glyph → Option (List Glyph × List Glyph)
  | [] => none
  | g :: gs =>
    if fresh && g.isSpace then readTitleTo? close true gs
    else if g.char == close then some ([], gs)
    else if g.isLineEnd then (readTitleTo? close true gs).map fun r => (g :: r.1, r.2)
    else
      match gs with
      | e :: rest =>
        if g.char == '\\' && (e.char == close || e.char == '\\') then
          (readTitleTo? close false rest).map fun r => (g :: e :: r.1, r.2)
        else (readTitleTo? close false (e :: rest)).map fun r => (g :: r.1, r.2)
      | [] => none

/-- Reads a title: its glyphs and what is left behind it. -/
def readTitle? : List Glyph → Option (List Glyph × List Glyph)
  | [] => none
  | g :: gs =>
    match g.char with
    | '"' => readTitleTo? '"' false gs
    | '\'' => readTitleTo? '\'' false gs
    | '(' => readTitleTo? ')' false gs
    | _ => none

end LiveMarkdown
