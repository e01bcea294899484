import LiveMarkdown.Completion.Construct
import LiveMarkdown.Completion.Line

/-!
# Inline scan

One line is scanned from left to right with a stack of the constructs that are open. Each step looks
at the characters ahead, the characters passed and the top of the stack, changes the stack, and
moves on by at least one character.

## Main definitions

* `InlineState`: the open constructs, innermost first, and what the very end of the text adds.
* `InlineLine`: what a step needs to know about the line as a whole.
* `InlineState.step`: one step, with the number of further characters it takes.
* `InlineState.scan`: the steps over a line.
-/

namespace LiveMarkdown

/-- What is open at a point of a text. -/
structure InlineState where
  /-- The open constructs, innermost first. -/
  stack : List OpenConstruct
  /-- What is missing of a closing run that the end of the text cuts short. -/
  partialCloser : List Char
  /-- Whether the text ends with a label whose address may follow. -/
  labelClosedAtEnd : Bool
  deriving DecidableEq, Repr

/-- Nothing is open. -/
def InlineState.empty : InlineState := ⟨[], [], false⟩

/-- What a scan knows about the line it is on. -/
structure InlineLine where
  /-- The line ends where the text ends. -/
  final : Bool
  /-- The number of characters from the start of the content to the end of the line, by which the
  start of the content is recognised. -/
  contentLength : Nat
  /-- The line starts with a list marker. -/
  listItem : Bool
  deriving DecidableEq, Repr

/-- The constructs below the innermost label, with that label's footnote mark. -/
def closeLabel? : List OpenConstruct → Option (Bool × List OpenConstruct)
  | [] => none
  | .linkLabel _ footnote :: below => some (footnote, below)
  | _ :: below => closeLabel? below

/-- The innermost marker of a character, with the constructs below it. The search ends at a
label. -/
def findOpener? (c : Char) : List OpenConstruct → Option (Marker × List OpenConstruct)
  | [] => none
  | .linkLabel _ _ :: _ => none
  | .delimiter marker :: below =>
    if marker.char = c then some (marker, below) else findOpener? c below
  | _ :: below => findOpener? c below

/-- What is left of a delimiter run once it has closed what it can. -/
structure RunClosing where
  /-- The constructs that stay open. -/
  stack : List OpenConstruct
  /-- The characters of the run that closed nothing. -/
  remaining : Nat
  /-- The number of characters missing of a closer at the very end of the text. -/
  missing : Nat
  deriving DecidableEq, Repr

/-- Closes markers of one character from the inside out. A marker longer than what remains of the
run is closed only at the very end of the text, where the run may still grow. -/
def closeRun (c : Char) (atEnd : Bool) (stack : List OpenConstruct) (remaining : Nat) :
    RunClosing :=
  if remaining = 0 then ⟨stack, 0, 0⟩
  else
    match findOpener? c stack with
    | none => ⟨stack, remaining, 0⟩
    | some (marker, below) =>
      if marker.length ≤ remaining then closeRun c atEnd below (remaining - marker.length)
      else if atEnd then ⟨below, 0, marker.length - remaining⟩
      else ⟨stack, remaining, 0⟩
termination_by remaining
decreasing_by have := marker.length_pos; omega

/-- The single and the double marker of a delimiter character. Two characters only come in pairs. -/
def markersOf? : Char → Option (Marker × Marker)
  | '*' => some (.star, .doubleStar)
  | '_' => some (.underscore, .doubleUnderscore)
  | '~' => some (.tilde, .doubleTilde)
  | '+' => some (.doublePlus, .doublePlus)
  | '=' => some (.doubleEquals, .doubleEquals)
  | _ => none

/-- The markers that a run of `n` opens, innermost first. Asterisks and underscores open one single
marker if their number is odd and double markers inside it; the others open one marker. -/
def openedBy (c : Char) (single double : Marker) (n : Nat) : List OpenConstruct :=
  if c = '*' || c = '_' then
    List.replicate (n / 2) (.delimiter double) ++
      (if n % 2 = 1 then [.delimiter single] else [])
  else [.delimiter (if n = 1 then single else double)]

/-- Whether runs of this length are delimiters at all. -/
def countsAsRun (c : Char) (run : Nat) : Bool :=
  if c = '+' || c = '=' then run == 2 else if c = '~' then run ≤ 2 else true

/-- An odd number of backslashes in front escapes a character. Here `before` is what precedes it,
nearest first. -/
def isEscapedBy (before : List Char) : Bool :=
  runLength '\\' before % 2 == 1

/-- A task marker at the start of a list item: the number of its characters after the bracket. A
marker that the end of the text cuts short counts too. -/
def taskMarker? (final : Bool) : List Char → Option Nat
  | [] => if final then some 0 else none
  | [x] => if final && (x == ' ' || x == 'x' || x == 'X') then some 1 else none
  | x :: y :: rest =>
    if (x == ' ' || x == 'x' || x == 'X') && y == ']' &&
        (match rest with | [] => true | z :: _ => isSpace z) then some 2
    else none

namespace InlineState

/-- A backslash takes the character after it along if that can be escaped. -/
def stepBackslash (st : InlineState) (ahead : List Char) : InlineState × Nat :=
  (st, if ahead.head?.any isEscapable then 1 else 0)

/-- A run of backticks opens a code span, except at the very end of the text, where it may still
grow into something else. -/
def stepBackticks (line : InlineLine) (st : InlineState) (ahead : List Char) : InlineState × Nat :=
  let more := runLength '`' ahead
  if line.final && (ahead.drop more).isEmpty then (st, more)
  else ({ st with stack := .codeSpan (more + 1) :: st.stack }, more)

/-- A delimiter run first closes what it can and then opens with what is left of it. -/
def stepDelimiters (line : InlineLine) (st : InlineState) (before : List Char) (c : Char)
    (single double : Marker) (ahead : List Char) : InlineState × Nat :=
  let more := runLength c ahead
  let run := more + 1
  if !countsAsRun c run then (st, more)
  else
    let previous := CharClass.ofChar? before.head?
    let next := CharClass.ofChar? (ahead.drop more).head?
    let closing :=
      if single.delimiter.canClose previous next then
        closeRun c (line.final && (ahead.drop more).isEmpty) st.stack run
      else ⟨st.stack, run, 0⟩
    let partialCloser :=
      if closing.missing = 0 then st.partialCloser else List.replicate closing.missing c
    let opened :=
      if 0 < closing.remaining && single.delimiter.canOpen previous next then
        openedBy c single double closing.remaining
      else []
    ({ st with stack := opened ++ closing.stack, partialCloser }, more)

/-- One or two dollar signs open a formula if their rule lets them. -/
def stepDollars (line : InlineLine) (st : InlineState) (before ahead : List Char) :
    InlineState × Nat :=
  let more := runLength '$' ahead
  let rest := ahead.drop more
  let previous := CharClass.ofChar? before.head?
  let next := CharClass.ofChar? rest.head?
  if more = 0 then
    if Delimiter.dollar.canOpen previous next then
      ({ st with stack := .math false false :: st.stack }, more)
    else (st, more)
  else if more = 1 then
    if Delimiter.doubleDollar.canOpen previous next then
      let ownLine := ahead.length + 1 == line.contentLength && rest.isEmpty
      ({ st with stack := .math true ownLine :: st.stack }, more)
    else (st, more)
  else (st, more)

/-- An opening bracket starts a label, unless it starts the task marker of a list item. -/
def stepOpenBracket (line : InlineLine) (st : InlineState) (before ahead : List Char) :
    InlineState × Nat :=
  let task :=
    if line.listItem && ahead.length + 1 == line.contentLength then taskMarker? line.final ahead
    else none
  match task with
  | some more => (st, more)
  | none =>
    let image :=
      match before with
      | '!' :: earlier => !isEscapedBy earlier
      | _ => false
    ({ st with stack := .linkLabel image (ahead.head? == some '^') :: st.stack }, 0)

/-- A closing bracket ends the innermost label and all that is open in it. An address follows if the
next character is an opening parenthesis, and may follow if the text ends here. -/
def stepCloseBracket (line : InlineLine) (st : InlineState) (ahead : List Char) :
    InlineState × Nat :=
  match closeLabel? st.stack with
  | none => (st, 0)
  | some (true, below) => ({ st with stack := below }, 0)
  | some (false, below) =>
    match ahead with
    | '(' :: _ => ({ st with stack := .linkDestination 1 :: below }, 1)
    | [] => ({ st with stack := below, labelClosedAtEnd := line.final || st.labelClosedAtEnd }, 0)
    | _ => ({ st with stack := below }, 0)

/-- An emoji shortcode is passed over whole, so that its underscores stay text. -/
def stepColon (st : InlineState) (ahead : List Char) : InlineState × Nat :=
  let name := (ahead.takeWhile isShortcodeChar).length
  if 0 < name && (ahead.drop name).head? == some ':' then (st, name + 1) else (st, 0)

/-- A step where no literal construct is open. -/
def stepMarkup (line : InlineLine) (st : InlineState) (before : List Char) (c : Char)
    (ahead : List Char) : InlineState × Nat :=
  match c with
  | '\\' => st.stepBackslash ahead
  | '`' => st.stepBackticks line ahead
  | '$' => st.stepDollars line before ahead
  | '[' => st.stepOpenBracket line before ahead
  | ']' => st.stepCloseBracket line ahead
  | ':' => st.stepColon ahead
  | _ =>
    match markersOf? c with
    | some (single, double) => st.stepDelimiters line before c single double ahead
    | none => (st, 0)

/-- A step: inside a literal construct only its closer counts. -/
def step (line : InlineLine) (st : InlineState) (before : List Char) (c : Char)
    (ahead : List Char) : InlineState × Nat :=
  match st.stack with
  | .codeSpan run :: below =>
    if c = '`' then
      let more := runLength '`' ahead
      (if more + 1 = run then { st with stack := below } else st, more)
    else (st, 0)
  | .math display _ :: below =>
    if c = '\\' then (st, 1)
    else if c = '$' then
      let more := runLength '$' ahead
      let previous := CharClass.ofChar? before.head?
      let next := CharClass.ofChar? (ahead.drop more).head?
      let closes :=
        if display then more == 1 else more == 0 && Delimiter.dollar.canClose previous next
      (if closes then { st with stack := below } else st, more)
    else (st, 0)
  | .linkDestination depth :: below =>
    if c = '\\' then (st, 1)
    else if c = '(' then ({ st with stack := .linkDestination (depth + 1) :: below }, 0)
    else if c = ')' then
      ({ st with stack := if depth ≤ 1 then below else .linkDestination (depth - 1) :: below }, 0)
    else (st, 0)
  | _ => st.stepMarkup line before c ahead

/-- Scans what is ahead on a line. Here `before` is what has been passed, nearest first. -/
def scan (line : InlineLine) (st : InlineState) (before : List Char) :
    List Char → InlineState
  | [] => st
  | c :: ahead =>
    let next := st.step line before c ahead
    scan line next.1 ((ahead.take next.2).reverse ++ c :: before) (ahead.drop next.2)
termination_by ahead => ahead.length
decreasing_by simp only [List.length_drop, List.length_cons]; omega

end InlineState

end LiveMarkdown
