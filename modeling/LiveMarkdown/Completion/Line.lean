import LiveMarkdown.Text.CharClass
import LiveMarkdown.Text.Trim

/-!
# The shapes of a line

Before the inline content of a line is looked at, the line is judged as a whole: which containers it
enters, and whether it is a thematic break, a heading, a table row or the row that separates the
head of a table from its body. All of these are decided on the characters of the line alone.

## Main definitions

* `splitLines`: the lines of a text.
* `ContainerLead`: the block quote and list markers that a line starts with.
* `isThematicBreak`, `isAtxHeading`, `isPipeRow`, `isTableSeparator`: the line shapes.
* `tableSeparatorFor`: the separator row that would complete a table head.
-/

namespace LiveMarkdown

/-- The lines of a text, without their line feeds. There is always at least one. -/
def splitLines : List Char → List (List Char)
  | [] => [[]]
  | '\n' :: cs => [] :: splitLines cs
  | c :: cs =>
    match splitLines cs with
    | [] => [[c]]
    | line :: lines => (c :: line) :: lines

/-- A text has at least one line. -/
theorem splitLines_ne_nil (cs : List Char) : splitLines cs ≠ [] := by
  fun_cases splitLines cs <;> simp_all

/-- Removes at most `n` spaces at the start. -/
def dropSpaces : Nat → List Char → List Char
  | n + 1, ' ' :: cs => dropSpaces n cs
  | _, cs => cs

theorem dropSpaces_length_le (n : Nat) (cs : List Char) : (dropSpaces n cs).length ≤ cs.length := by
  fun_induction dropSpaces n cs with
  | case1 n cs ih => simp only [List.length_cons]; omega
  | case2 => exact Nat.le_refl _

/-- The length of the run of one character that a text starts with. -/
def runLength (c : Char) (cs : List Char) : Nat :=
  (cs.takeWhile (· == c)).length

/-- White space only, or nothing. -/
def isBlankLine (cs : List Char) : Bool :=
  cs.all isAsciiWhiteSpace

/-- A space or a tab. -/
def isSpaceOrTab (c : Char) : Bool :=
  c == ' ' || c == '\t'

/-- A list marker has to be followed by a space, a tab or the end of the line. -/
def endsMarker : List Char → Bool
  | [] => true
  | c :: _ => isSpaceOrTab c

/-- The text after the number of an ordered list marker, which has at most nine digits and ends in a
point or a closing parenthesis. -/
def afterOrdinal? (cs : List Char) : Option (List Char) :=
  let digits := ((cs.take 9).takeWhile Char.isDigit).length
  if digits = 0 then none
  else
    match cs.drop digits with
    | '.' :: rest => some rest
    | ')' :: rest => some rest
    | _ => none

theorem afterOrdinal?_length_lt {cs rest : List Char} (h : afterOrdinal? cs = some rest) :
    rest.length < cs.length := by
  have key : ∀ k, cs.drop k = '.' :: rest ∨ cs.drop k = ')' :: rest →
      rest.length < cs.length := by
    intro k hk
    rcases hk with hk | hk <;>
    · have := congrArg List.length hk
      simp only [List.length_drop, List.length_cons] at this
      omega
  unfold afterOrdinal? at h
  simp only at h
  split at h
  · simp at h
  · split at h
    · rename_i r hr; cases h; exact key _ (Or.inl hr)
    · rename_i r hr; cases h; exact key _ (Or.inr hr)
    · simp at h

/-- The text after a bullet or an ordered list marker at the start of the text. -/
def afterListMarker? (cs : List Char) : Option (List Char) :=
  let after :=
    match cs with
    | '-' :: rest => some rest
    | '+' :: rest => some rest
    | '*' :: rest => some rest
    | _ => afterOrdinal? cs
  after.filter endsMarker

theorem afterListMarker?_length_lt {cs rest : List Char} (h : afterListMarker? cs = some rest) :
    rest.length < cs.length := by
  unfold afterListMarker? at h
  simp only [Option.filter_eq_some_iff] at h
  obtain ⟨h, -⟩ := h
  split at h
  · cases h; simp
  · cases h; simp
  · cases h; simp
  · exact afterOrdinal?_length_lt h

/-- What a line holds behind its block quote and list markers. -/
structure ContainerLead where
  /-- The text behind the markers, with the indentation of the content. -/
  rest : List Char
  /-- The number of block quote markers. -/
  quoteDepth : Nat
  /-- Whether there is a list marker. -/
  listItem : Bool
  deriving DecidableEq, Repr

/-- Removes one space after a block quote marker. -/
def afterQuoteMarker (cs : List Char) : List Char :=
  dropSpaces 1 cs

/-- Reads markers from the start of a line: up to three spaces and `>` with one optional space, or a
list marker with up to four spaces behind it, as long as there are any. -/
def ContainerLead.read (cs : List Char) (quoteDepth : Nat) (listItem : Bool) : ContainerLead :=
  match h : dropSpaces 3 cs with
  | '>' :: rest => ContainerLead.read (afterQuoteMarker rest) (quoteDepth + 1) listItem
  | [] => ⟨cs, quoteDepth, listItem⟩
  | c :: r =>
    match _hm : afterListMarker? (c :: r) with
    | some rest => ContainerLead.read (dropSpaces 4 rest) quoteDepth true
    | none => ⟨cs, quoteDepth, listItem⟩
termination_by cs.length
decreasing_by
  · have h₁ := dropSpaces_length_le 3 cs
    have h₂ := dropSpaces_length_le 1 rest
    rw [h] at h₁
    simp only [List.length_cons] at h₁
    simp only [afterQuoteMarker]
    omega
  · have h₁ := dropSpaces_length_le 3 cs
    have h₂ := dropSpaces_length_le 4 rest
    have h₃ := afterListMarker?_length_lt _hm
    rw [h] at h₁
    simp only [List.length_cons] at h₁ h₃
    omega

/-- The container markers that a line starts with. -/
def containerLead (line : List Char) : ContainerLead :=
  ContainerLead.read line 0 false

/-- Removes up to so many block quote markers, as far as the line has them. -/
def dropQuoteMarkers : Nat → List Char → List Char
  | 0, cs => cs
  | depth + 1, cs =>
    match dropSpaces 3 cs with
    | '>' :: rest => dropQuoteMarkers depth (afterQuoteMarker rest)
    | _ => cs

/-- A thematic break: at least three equal marks, with nothing but spaces and tabs between them. -/
def isThematicBreak (line : List Char) : Bool :=
  match dropSpaces 3 line with
  | [] => false
  | c :: cs =>
    (c == '*' || c == '-' || c == '_') &&
      cs.all (fun x => x == c || isSpaceOrTab x) && 3 ≤ (c :: cs).count c

/-- A heading that opens with one to six number signs. -/
def isAtxHeading (content : List Char) : Bool :=
  let level := runLength '#' content
  1 ≤ level && level ≤ 6 &&
    (match content.drop level with
     | [] => true
     | c :: _ => isSpace c)

/-- A table row that both starts and ends with an unescaped pipe. -/
def isPipeRow (line : List Char) : Bool :=
  let row := trim line
  2 ≤ row.length && row.head? == some '|' &&
    (match row.reverse with
     | '|' :: '\\' :: _ => false
     | '|' :: _ => true
     | _ => false)

/-- The pieces between the pipes of a row. -/
def splitPipes : List Char → List (List Char)
  | [] => [[]]
  | '|' :: cs => [] :: splitPipes cs
  | c :: cs =>
    match splitPipes cs with
    | [] => [[c]]
    | piece :: pieces => (c :: piece) :: pieces

/-- A cell of a separator row: hyphens, with an optional colon at either end. -/
def isSeparatorCell (cell : List Char) : Bool :=
  let body := cell.dropWhile isSpaceOrTab
  let body := if body.head? == some ':' then body.drop 1 else body
  let hyphens := runLength '-' body
  let rest := body.drop hyphens
  let rest := if rest.head? == some ':' then rest.drop 1 else rest
  1 ≤ hyphens && rest.all isSpaceOrTab

/-- A row that separates the head of a table from its body; the outer pipes are optional. -/
def isTableSeparator (row : List Char) : Bool :=
  let inner := if row.head? == some '|' then row.drop 1 else row
  let cells := splitPipes inner
  let cells := if 2 ≤ cells.length && cells.getLast? == some [] then cells.dropLast else cells
  cells.all isSeparatorCell

/-- The number of pipes that no backslash escapes. -/
def countPipes : List Char → Nat
  | [] => 0
  | '\\' :: [] => 0
  | '\\' :: _ :: cs => countPipes cs
  | c :: cs => (if c = '|' then 1 else 0) + countPipes cs

/-- The separator row that completes a table whose head is the given last line. There is none when
the line is no row, is itself a separator, or follows a line that may belong to the same table. -/
def tableSeparatorFor (line : List Char) (previous : Option (List Char)) : Option (List Char) :=
  let row := trim line
  if !isPipeRow line || isTableSeparator row then none
  else if previous.any (fun p => (trim p).head? == some '|') then none
  else some ('|' :: (List.replicate (max 1 (countPipes row - 1)) [' ', '-', ' ', '|']).flatten)

end LiveMarkdown
