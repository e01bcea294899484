import LiveMarkdown.Completion.Scan

/-!
# Fragment completion

A fragment of Markdown that stops anywhere is completed by closing all that it leaves open, so that
it is read in the way the finished text is expected to be. White space at the edges of the fragment
is kept apart from its core: the closers go between the core and the trailing white space, and
leading white space is dropped unless it matters.

## Main definitions

* `FragmentParts`: a fragment cut into leading white space, core and trailing white space.
* `Completion`, `completeText`: a completed fragment together with its scan.
* `completeFragment`, `completionSuffix`: the completed text, and the closers alone.
* `completeCarrying`: completion of fragments that are shown one after another.
-/

namespace LiveMarkdown

/-- A fragment cut at its edges. -/
structure FragmentParts where
  /-- The white space at the start. -/
  leading : List Char
  /-- The text between. -/
  core : List Char
  /-- The white space at the end. -/
  trailing : List Char
  deriving DecidableEq, Repr

/-- Cuts a fragment. A fragment of white space alone is all leading. -/
def FragmentParts.ofText (text : List Char) : FragmentParts :=
  let body := text.dropWhile isAsciiWhiteSpace
  let core := (body.reverse.dropWhile isAsciiWhiteSpace).reverse
  ⟨text.takeWhile isAsciiWhiteSpace, core, body.drop core.length⟩

/-- White space in front of a core that changes how the core is read: a line break, a tab, the
indentation of code, or the indentation of a list item. -/
def isStructuralLeading (leading core : List Char) : Bool :=
  !leading.isEmpty &&
    (leading.any (fun c => c == '\n' || c == '\r' || c == '\t') || 4 ≤ leading.length ||
      (afterListMarker? core).isSome)

/-- Whether a text starts with a line break. -/
def startsWithLineBreak : List Char → Bool
  | '\n' :: _ => true
  | '\r' :: '\n' :: _ => true
  | _ => false

/-- Removes one line break at the start. -/
def dropLineBreak : List Char → List Char
  | '\n' :: rest => rest
  | '\r' :: '\n' :: rest => rest
  | cs => cs

/-- A completed fragment. -/
structure Completion where
  /-- The fragment with its closers. -/
  completed : List Char
  /-- The scan that found the closers; a fragment without content is not scanned. -/
  scan : Option ScanResult
  deriving DecidableEq, Repr

/-- Completes a fragment. `carried` is text that is put in front of the core: the openers that an
earlier fragment left unclosed. A closer that needs a line of its own takes the place of the line
break that follows the core. -/
def completeText (text carried : List Char) : Completion :=
  let parts := FragmentParts.ofText text
  if parts.core.isEmpty && carried.isEmpty then ⟨text, none⟩
  else
    let leading := if isStructuralLeading parts.leading parts.core then parts.leading else []
    let body := carried ++ parts.core
    let scan := scanText body (startsWithLineBreak parts.trailing)
    let rest := if scan.suffixStartsLine then dropLineBreak parts.trailing else parts.trailing
    ⟨leading ++ body ++ scan.suffix ++ rest, some scan⟩

/-- The closers that a completion added. -/
def Completion.suffix (c : Completion) : List Char :=
  (c.scan.map ScanResult.suffix).getD []

/-- The openers of what a completed fragment left open and its successor has to open again. -/
def Completion.carried (c : Completion) : List Char :=
  match c.scan with
  | none => []
  | some scan => (scan.openConstructs.filter OpenConstruct.carriesOver).flatMap OpenConstruct.opener

/-- Completes a fragment that stands on its own. -/
def completeFragment (text : String) : String :=
  String.ofList (completeText text.toList []).completed

/-- The closers that completing a fragment adds; empty when nothing was open. -/
def completionSuffix (text : String) : String :=
  String.ofList (completeText text.toList []).suffix

/-- Completes a fragment that follows another one, whose unclosed openers are given. The second part
of the answer is what the next fragment has to open again. -/
def completeCarrying (text carried : String) : String × String :=
  let c := completeText text.toList carried.toList
  (String.ofList c.completed, String.ofList c.carried)

end LiveMarkdown
