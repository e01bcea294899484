import LiveMarkdown.Markdown.Glyph

/-!
# Line endings behind a text

A list is spread out where blank lines separate its items. Whether they do is told by the line
endings behind the last text that has been read: between two items at least two of them have to come
together. Quote markers may stand among the line endings, but when a container ends, only the line
endings behind the last quote marker are left outside of it.

## Main definitions

* `LineEnds`: the line endings behind the last text.
* `LineMark`: what the containers that take a line leave at its start.
-/

namespace LiveMarkdown

/-- The line endings behind the last text that has been read. -/
structure LineEnds where
  /-- Those in front of the last quote marker. -/
  old : Nat
  /-- Those behind it. -/
  recent : Nat
  deriving DecidableEq, Repr

/-- What the containers that take a line leave at its start. -/
inductive LineMark where
  /-- Nothing, or white space. -/
  | none
  /-- A quote marker. -/
  | quote
  /-- The indentation of a note, which counts as text. -/
  | text
  deriving DecidableEq, Repr

/-- What one mark and another one behind it come to. -/
def LineMark.join (a b : LineMark) : LineMark :=
  match a, b with
  | text, _ => text
  | _, text => text
  | none, b => b
  | quote, _ => quote

namespace LineEnds

/-- Text has just been read. -/
def behindText : LineEnds := ⟨0, 0⟩

/-- Text and the end of its line have just been read. -/
def behindLine : LineEnds := ⟨0, 1⟩

/-- One more line ending. -/
def more (e : LineEnds) : LineEnds := { e with recent := e.recent + 1 }

/-- The line endings behind a mark. -/
def behind (e : LineEnds) : LineMark → LineEnds
  | .none => e
  | .quote => ⟨e.old + e.recent, 0⟩
  | .text => behindText

/-- What is left behind a container that ends here. -/
def behindContainer (e : LineEnds) : LineEnds := ⟨0, e.recent⟩

/-- Whether an item that starts here has a blank line in front of it. -/
def separateItem (e : LineEnds) : Bool := 2 ≤ e.old + e.recent

/-- Whether a list that ends here holds a blank line at its end. -/
def endInList (e : LineEnds) : Bool := 2 ≤ e.old

end LineEnds

end LiveMarkdown
