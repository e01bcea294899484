import LiveMarkdown.Markdown.Glyph

/-!
# Code spans

A code span lies between two runs of backticks of the same length, and inline mathematics between
two such runs of dollar signs. Nothing inside is Markdown.

## Main definitions

* `readSpan?`: a span whose opening run is in front.
* `dropPadding`: the content of a span, without the white space that keeps its ends from the marks.
-/

namespace LiveMarkdown

/-- Reads up to a run of exactly `size` marks: what is in front of it and what is left behind it. -/
def readToRun? (mark : Char) (size : Nat) (gs : List Glyph) : Option (List Glyph × List Glyph) :=
  match gs with
  | [] => none
  | g :: rest =>
    if g.char == mark then
      let run := glyphRun mark (g :: rest)
      if run = size then some ([], (g :: rest).drop run)
      else
        (readToRun? mark size (rest.drop (run - 1))).map fun r => ((g :: rest).take run ++ r.1, r.2)
    else (readToRun? mark size rest).map fun r => (g :: r.1, r.2)
termination_by gs.length
decreasing_by all_goals simp only [List.length_cons, List.length_drop]; omega

/-- A span whose opening run is in front. -/
structure CodeSpan where
  content : List Glyph
  /-- The number of glyphs of the span, marks included. -/
  length : Nat
  deriving DecidableEq, Repr

/-- Reads a span whose opening run is in front. -/
def readSpan? (mark : Char) (gs : List Glyph) : Option CodeSpan :=
  let size := glyphRun mark gs
  (readToRun? mark size (gs.drop size)).map fun (content, rest) =>
    ⟨content, gs.length - rest.length⟩

/-- A space or a line ending, which may pad the ends of a span. -/
def isPadding (g : Glyph) : Bool :=
  g.isLineEnd || (g.char == ' ' && g.role == .plain)

/-- The content of a span. If both ends are padded, and not all of it is padding, one glyph is
removed from either end. -/
def dropPadding (content : List Glyph) : List Glyph :=
  if content.head?.any isPadding && content.getLast?.any isPadding && !content.all isPadding then
    (content.drop 1).dropLast
  else content

/-- A pipe inside a table cell has to be escaped even in a code span. -/
def unescapePipes : List Char → List Char
  | [] => []
  | '\\' :: '|' :: cs => '|' :: unescapePipes cs
  | '\\' :: '\\' :: cs => '\\' :: '\\' :: unescapePipes cs
  | c :: cs => c :: unescapePipes cs

end LiveMarkdown
