import LiveMarkdown.Markdown.Block

/-!
# What a label leads to

Behind the closing bracket of a label stands what it leads to: a destination in parentheses, or
another label that is defined. A label that is defined itself needs neither.

## Main definitions

* `LinkTarget`: what a label leads to.
* `readResource?`: a destination and a title in parentheses.
* `linkTarget?`: what stands behind the closing bracket of a label.
-/

namespace LiveMarkdown

/-- What a label leads to. -/
inductive LinkTarget where
  | resource (url : String) (title : Option String)
  | reference (key : List Char)
  deriving DecidableEq, Repr

/-- The number of parentheses that may lie in each other in a bare destination. -/
def maxOpenParens : Nat := 32

/-- What is left behind a closing parenthesis, in front of which white space may come. -/
def afterCloseParen? (gs : List Glyph) : Option (List Glyph) :=
  match dropWhite gs with
  | g :: rest => if g.char == ')' then some rest else none
  | [] => none

/-- Whether a glyph opens a title. -/
def opensTitle (g : Glyph) : Bool :=
  g.char == '"' || g.char == '\'' || g.char == '('

/-- Reads a destination and an optional title whose opening parenthesis has been read, and the
parenthesis that closes them. -/
def readResource? (gs : List Glyph) : Option (LinkTarget × List Glyph) :=
  match afterCloseParen? gs with
  | some rest => some (.resource "" none, rest)
  | none => do
    let (url, behind) ← readDestination? (some maxOpenParens) (dropWhite gs)
    if behind.head?.any Glyph.isWhite && (dropWhite behind).head?.any opensTitle then
      let (title, behind) ← readTitle? (dropWhite behind)
      let rest ← afterCloseParen? behind
      return (.resource (decodeGlyphs url) (some (decodeGlyphs title)), rest)
    else
      let rest ← afterCloseParen? behind
      return (.resource (decodeGlyphs url) none, rest)

/-- A label in brackets that is defined. -/
def readReference? (defined : List (List Char)) (gs : List Glyph) :
    Option (LinkTarget × List Glyph) := do
  let (label, rest) ← readLabel? gs
  let key := labelKey (glyphText label)
  if defined.contains key then some (.reference key, rest) else none

/-- What the label of the given key leads to, and what is left behind that. A label in front of
brackets with something in them depends on these alone. -/
def linkTarget? (defined : List (List Char)) (key : List Char) (gs : List Glyph) :
    Option (LinkTarget × List Glyph) :=
  let shortcut : Option (LinkTarget × List Glyph) :=
    if defined.contains key then some (.reference key, gs) else none
  match gs with
  | [] => shortcut
  | g :: rest =>
    if g.char == '(' then (readResource? rest).or shortcut
    else if g.char == '[' then
      let collapsed :=
        if rest.head?.any (fun close => close.char == ']') then
          shortcut.map fun r => (r.1, rest.drop 1)
        else none
      (readReference? defined rest).or collapsed
    else shortcut

end LiveMarkdown
