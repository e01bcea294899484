import LiveMarkdown.Completion.Fence
import LiveMarkdown.Completion.Inline

/-!
# Fragment scan

A fragment is scanned line by line. A blank line, a thematic break, a list item, a heading and a
fence end whatever inline construct the lines before them left open. What is open after the last
line determines the text that closes it.

## Main definitions

* `ScanState`: the inline state together with the open fence.
* `ScanState.scanLine`, `ScanState.scanLines`: the scan of a line and of all lines.
* `ScanResult`, `scanText`: what a scan reports, and the scan of a whole text.
-/

namespace LiveMarkdown

/-- What is open between two lines. -/
structure ScanState where
  /-- The inline constructs. -/
  inline : InlineState
  /-- The open code fence. -/
  fence : Option OpenFence
  deriving DecidableEq, Repr

namespace ScanState

/-- Nothing is open. -/
def empty : ScanState := ⟨.empty, none⟩

/-- The scan of a line outside a fence. Here `final` says that the line ends where the text ends. -/
def scanMarkup (st : ScanState) (line : List Char) (final : Bool) : ScanState :=
  if isThematicBreak line then empty
  else
    let lead := containerLead line
    let content := dropSpaces 3 lead.rest
    if isBlankLine content then empty
    else
      match openFence? line content lead.quoteDepth with
      | some fence => { empty with fence := some fence }
      | none =>
        let heading := isAtxHeading content
        let start := if lead.listItem || heading then InlineState.empty else st.inline
        let before := (line.take (line.length - lead.rest.length)).reverse
        let scanned := start.scan ⟨final, content.length, lead.listItem⟩ before lead.rest
        if !final && (heading || isPipeRow line) then empty else ⟨scanned, none⟩

/-- The scan of a line. -/
def scanLine (st : ScanState) (line : List Char) (final : Bool) : ScanState :=
  match st.fence with
  | some fence => { st with fence := fence.step line final }
  | none => st.scanMarkup line final

/-- A line without a carriage return at its end, and whether it had none. -/
def stripReturn (line : List Char) : List Char × Bool :=
  match line.getLast? with
  | some '\r' => (line.dropLast, false)
  | _ => (line, true)

/-- The scan of lines up to the last one. A line that ends in a carriage return is never final,
since its line feed is about to follow. -/
def scanLines (st : ScanState) : List (List Char) → ScanState
  | [] => st
  | [line] => st.scanLine (stripReturn line).1 (stripReturn line).2
  | line :: lines => scanLines (st.scanLine (stripReturn line).1 false) lines

end ScanState

/-- What a scan reports. -/
structure ScanResult where
  /-- The open inline constructs, outermost first. -/
  openConstructs : List OpenConstruct
  /-- The open code fence. While it is open there are no inline constructs. -/
  fence : Option OpenFence
  /-- The text that closes all that is open, innermost first. -/
  suffix : List Char
  /-- Whether the suffix begins on a line of its own. -/
  suffixStartsLine : Bool
  deriving DecidableEq, Repr

/-- The text that closes open inline constructs: what the end of the text cut short, the address of
a label that has just been closed, and the closers from the inside out. -/
def InlineState.suffix (st : InlineState) : List Char :=
  st.partialCloser ++
    (if st.labelClosedAtEnd then '(' :: (incompleteLinkAddress ++ [')']) else []) ++
    st.stack.flatMap OpenConstruct.closer

/-- Scans a text. `lineBreakFollows` says that the text is followed by a line break that is not part
of it; then a table head at the end is completed with its separator row. -/
def scanText (text : List Char) (lineBreakFollows : Bool) : ScanResult :=
  let lines := splitLines text
  let st := ScanState.empty.scanLines lines
  match st.fence with
  | some fence => ⟨[], some fence, fence.closer, fence.closerStartsLine⟩
  | none =>
    let separator :=
      if lineBreakFollows then
        tableSeparatorFor (lines.getLastD []) (lines.dropLast.getLast?)
      else none
    match separator with
    | some row => ⟨[], none, '\n' :: row, true⟩
    | none =>
      let suffix := st.inline.suffix
      ⟨st.inline.stack.reverse, none, suffix, suffix.head? == some '\n'⟩

end LiveMarkdown
