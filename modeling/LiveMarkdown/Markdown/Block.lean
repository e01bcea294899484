import LiveMarkdown.Markdown.TableRow

/-!
# Blocks

A text is read in two passes, because a reference may come before the definition it leads to. The
first pass finds the blocks and leaves running text as glyphs; the definitions it meets are
complete.

## Main definitions

* `TextRole`: what running text belongs to.
* `Block`: a block whose running text has not been read yet.
* `leadingDefinitions`: the definitions at the start of a paragraph.
* `Block.references`: the labels that references may lead to.
-/

namespace LiveMarkdown

/-- What running text belongs to. -/
inductive TextRole where
  /-- A paragraph; `leadsItem` says whether it comes directly behind the marker of a list item. -/
  | paragraph (leadsItem : Bool)
  | heading (depth : Nat)
  | cell
  deriving DecidableEq, Repr

/-- What the text becomes. -/
def TextRole.branch : TextRole → MarkupBranch
  | paragraph _ => .paragraph
  | heading depth => .heading depth
  | cell => .tableCell

/-- A block whose running text has not been read yet. -/
inductive Block where
  | leaf (span : Option Span) (leaf : MarkupLeaf)
  | text (span : Option Span) (role : TextRole) (content : List Glyph)
  | branch (span : Option Span) (branch : MarkupBranch) (children : List Block)
  deriving Repr

/-! ### Definitions -/

/-- Whether a line ends here, apart from white space. -/
def endsLine (gs : List Glyph) : Bool :=
  (dropAllIndent gs).head?.all Glyph.isLineEnd

/-- What is left behind a title, which white space separates from what precedes it and which ends
its line. -/
def separateTitle? (gs : List Glyph) : Option (List Glyph × List Glyph) :=
  if gs.head?.any Glyph.isWhite then
    (readTitle? (dropWhite gs)).filter fun t => endsLine t.2
  else none

/-- Reads a definition: a label, a colon, a destination and an optional title. -/
def readDefinition? (gs : List Glyph) : Option (MarkupLeaf × List Glyph) := do
  let body ← if gs.head?.any (fun g => g.char == '[') then some (gs.drop 1) else none
  let (label, afterLabel) ← readLabel? body
  let afterColon ←
    if afterLabel.head?.any (fun g => g.char == ':') then some (afterLabel.drop 1) else none
  let (url, rest) ← readDestination? none (dropWhite afterColon)
  let made (title : Option String) : MarkupLeaf :=
    .definition (String.ofList (labelKey (glyphText label))) (decodeGlyphs url) title
  match separateTitle? rest with
  | some (title, rest) => some (made (some (decodeGlyphs title)), dropAllIndent rest)
  | none => if endsLine rest then some (made none, dropAllIndent rest) else none

/-- The definitions at the start of a paragraph, and the text behind them. -/
def leadingDefinitions (gs : List Glyph) : List Block × List Glyph :=
  match readDefinition? gs with
  | none => ([], gs)
  | some (definition, rest) =>
    if _h : (dropAllIndent (rest.drop 1)).length < gs.length then
      let (more, text) := leadingDefinitions (dropAllIndent (rest.drop 1))
      (.leaf none definition :: more, text)
    else ([], gs)
termination_by gs.length
decreasing_by exact _h

/-! ### References -/

/-- The labels that references may lead to, by what two labels must agree in. -/
structure References where
  definitions : List (List Char)
  notes : List (List Char)
  deriving DecidableEq, Repr

/-- All labels of two sorts of references. -/
def References.union (a b : References) : References :=
  ⟨a.definitions ++ b.definitions, a.notes ++ b.notes⟩

/-- The label that a markup node defines by itself. -/
def noteReferences : MarkupBranch → References
  | .footnoteDefinition identifier _ => ⟨[], [identifier.toList]⟩
  | _ => ⟨[], []⟩

namespace Block

mutual

/-- The labels that are defined in a block. -/
def references : Block → References
  | leaf _ (.definition identifier _ _) => ⟨[identifier.toList], []⟩
  | leaf _ _ => ⟨[], []⟩
  | text _ _ _ => ⟨[], []⟩
  | branch _ b children => (noteReferences b).union (referencesList children)

/-- The labels that are defined in blocks. -/
def referencesList : List Block → References
  | [] => ⟨[], []⟩
  | b :: bs => (references b).union (referencesList bs)

end

end Block

end LiveMarkdown
