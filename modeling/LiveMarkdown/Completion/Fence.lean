import LiveMarkdown.Completion.Construct
import LiveMarkdown.Completion.Line

/-!
# Code fences

A fence opens with at least three backticks or tildes behind the container markers of its line and
stays open until a line brings a run that is at least as long and stands alone. A shorter run at the
very end of the text may still grow, so it is remembered as the beginning of the closing fence.

## Main definitions

* `openFence?`: the fence that a line opens.
* `OpenFence.step`: what a further line does to an open fence.
-/

namespace LiveMarkdown

/-- Keeps the shape of container markers on a later line: block quote markers and tabs stay, all
else becomes a space. -/
def blankMarkers (lead : List Char) : List Char :=
  lead.map (fun c => if c = '>' || c = '\t' then c else ' ')

/-- The fence that a line opens. Here `content` is the part of the line behind its markers and its
indentation. The info string of a backtick fence holds no backtick. -/
def openFence? (line content : List Char) (quoteDepth : Nat) : Option OpenFence :=
  match content with
  | [] => none
  | c :: _ =>
    match FenceMark.ofChar? c with
    | none => none
    | some mark =>
      let length := runLength c content
      if length < 3 then none
      else if mark = .backtick && (content.drop length).contains '`' then none
      else some {
        mark, length, quoteDepth,
        indent := (dropQuoteMarkers quoteDepth line).length - content.length
        leader := blankMarkers (line.take (line.length - content.length))
        hasBody := false
        partialClose := 0 }

/-- What a line does to an open fence: it closes the fence, begins to close it at the very end of
the text, or belongs to the body. -/
def OpenFence.step (f : OpenFence) (line : List Char) (final : Bool) : Option OpenFence :=
  let inner := dropQuoteMarkers f.quoteDepth line
  let body := inner.dropWhile isSpace
  let run := runLength f.mark.char body
  let tail := body.drop run
  let counts := 0 < run && inner.length - body.length ≤ f.indent + 3
  if counts && f.length ≤ run && isBlankLine tail then none
  else if counts && final && tail.isEmpty then some { f with partialClose := run }
  else some { f with hasBody := true }

end LiveMarkdown
