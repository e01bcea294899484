import LiveMarkdown.Markdown.LineEnds
import LiveMarkdown.Markdown.OpenLeaf

/-!
# Open containers

Block quotes, list items and notes hold other blocks. Each line is offered to the open containers
from the outside in: a container that takes the line removes its own part of it, and a list may find
that the line starts its next item instead. Behind the containers that are open already, new ones
may start.

## Main definitions

* `OpenList`, `OpenContainer`, `Frame`: containers that may still grow.
* `Frame.close`: the block that a container has become.
* `OpenContainer.offer`: what a line means to a container.
* `ContainerOpening`, `containerOpening?`: new containers.
-/

namespace LiveMarkdown

/-- A list that may still grow, with its last item open. -/
structure OpenList where
  sort : ItemSort
  /-- The number of the first item. -/
  start : Option Nat
  /-- Whether two items have a blank line between them. -/
  spread : Bool
  /-- The finished items, newest first. -/
  items : List Block
  /-- The place of the marker of the open item and of what separates it from the text behind it. -/
  marker : Option Span
  /-- The columns by which the lines of the open item are indented. -/
  width : Nat
  /-- Whether the open item has an empty first line and nothing else yet. -/
  startsBlank : Bool
  /-- Whether the open item starts with two blank lines, and so is over. -/
  exhausted : Bool
  deriving Repr

/-- A container that may still grow. -/
inductive OpenContainer where
  | quote
  | list (list : OpenList)
  | note (label : List Glyph)
  deriving Repr

/-- An open container with the blocks in it, newest first. For a list these are the blocks in the
open item. -/
structure Frame where
  container : OpenContainer
  children : List Block
  deriving Repr

/-- Whether a container is a list. -/
def Frame.isList (f : Frame) : Bool :=
  match f.container with
  | .list _ => true
  | _ => false

/-- Whether a container is a note. -/
def Frame.isNote (f : Frame) : Bool :=
  match f.container with
  | .note _ => true
  | _ => false

/-- The place of an item, as far as its marker is concerned. If there is something in the item, the
place goes on behind the marker. -/
def OpenList.place (l : OpenList) (children : List Block) : Option Span :=
  if children.isEmpty then l.marker else l.marker.map fun p => { p with stop := p.stop + 1 }

/-- The open item of a list as a block. -/
def OpenList.item (l : OpenList) (children : List Block) : Block :=
  .branch (l.place children) (.listItem none) children.reverse

/-- The block that a container has become, which ends behind the given line endings. -/
def Frame.close (ends : LineEnds) (f : Frame) : Block :=
  match f.container with
  | .quote => .branch none .blockquote f.children.reverse
  | .list l =>
    .branch none (.list l.sort.ordered l.start (l.spread || ends.endInList))
      (l.item f.children :: l.items).reverse
  | .note label =>
    let identifier := String.ofList (labelKey (glyphText label))
    .branch none (.footnoteDefinition identifier (some (decodeGlyphs label))) f.children.reverse

/-! ### Lines -/

/-- What a line means to an open container. -/
inductive Offer where
  /-- The container takes the line and leaves the rest of it to its content. -/
  | kept (container : OpenContainer) (rest : List Glyph)
  /-- The line starts the next item of a list. -/
  | nextItem (opening : ItemOpening)
  | refused

/-- What is left of a line behind a quote marker, up to three columns from its start, and one
space. -/
def afterQuoteMark? (gs : List Glyph) : Option (List Glyph) :=
  match dropIndent 3 gs with
  | g :: rest => if g.char == '>' then some (dropIndent 1 rest) else none
  | [] => none

/-- What a line means to a list: a blank line belongs to the open item, and so does a line that is
indented as far as the item is, unless the item started with two blank lines. -/
def OpenList.offer (l : OpenList) (gs : List Glyph) : Offer :=
  if isBlankGlyphs gs then
    .kept (.list { l with exhausted := l.exhausted || l.startsBlank }) (dropIndent l.width gs)
  else if !l.exhausted && l.width ≤ indentOf gs then
    .kept (.list { l with startsBlank := false }) (dropIndent l.width gs)
  else
    match (itemOpening? false gs).filter (fun opening => opening.sort == l.sort) with
    | some opening => .nextItem opening
    | none => .refused

/-- What a line means to a note: a blank line belongs to it, and so does a line that is indented by
four columns. A note that lies directly `inNote` needs no indentation besides that of the outer
one. -/
def offerToNote (inNote : Bool) (label gs : List Glyph) : Offer :=
  let indent := indentOf gs
  if isBlankGlyphs gs || (inNote && indent == 0) then .kept (.note label) gs
  else if codeIndent ≤ indent then .kept (.note label) (dropIndent codeIndent gs)
  else .refused

/-- What a line means to an open container, which may lie directly in a note. -/
def OpenContainer.offer (inNote : Bool) (gs : List Glyph) : OpenContainer → Offer
  | quote =>
    match afterQuoteMark? gs with
    | some rest => .kept quote rest
    | none => .refused
  | list l => l.offer gs
  | note label => offerToNote inNote label gs

/-- How far a line goes through the open containers. -/
structure Passage where
  /-- The containers that take the line, innermost first. -/
  kept : List Frame
  /-- The others, outermost first. -/
  left : List Frame
  rest : List Glyph
  /-- What the containers that take the line leave at its start. -/
  mark : LineMark
  /-- The item that the line starts in the first of the containers left. -/
  nextItem : Option ItemOpening

/-- What a container leaves at the start of a line that it takes. -/
def OpenContainer.mark (gs : List Glyph) : OpenContainer → LineMark
  | quote => .quote
  | list _ => .none
  | note _ => if isBlankGlyphs gs then .none else .text

/-- Offers a line to open containers, outermost first, behind those that have taken it already. -/
def passLine (kept : List Frame) (mark : LineMark) (gs : List Glyph) : List Frame → Passage
  | [] => ⟨kept, [], gs, mark, none⟩
  | f :: fs =>
    match f.container.offer (kept.head?.any Frame.isNote) gs with
    | .kept container rest =>
      passLine ({ f with container } :: kept) (mark.join (f.container.mark gs)) rest fs
    | .nextItem opening => ⟨kept, f :: fs, opening.rest, mark, some opening⟩
    | .refused => ⟨kept, f :: fs, gs, mark, none⟩

/-! ### New containers -/

/-- The start of a container. -/
inductive ContainerOpening where
  | quote
  | item (opening : ItemOpening)
  | note (label : List Glyph)

/-- The container that a line starts, and what is left of the line. -/
def containerOpening? (ext : Extensions) (interrupting : Bool) (gs : List Glyph) :
    Option (ContainerOpening × List Glyph) :=
  match afterQuoteMark? gs, itemOpening? interrupting gs, footnoteOpening? gs with
  | some rest, _, _ => some (.quote, rest)
  | none, some opening, _ => some (.item opening, opening.rest)
  | none, none, some (label, rest) => if ext.gfm then some (.note label, rest) else none
  | none, none, none => none

/-- The container that has been started. -/
def ContainerOpening.frame : ContainerOpening → Frame
  | quote => ⟨.quote, []⟩
  | item o => ⟨.list ⟨o.sort, o.number, false, [], o.span, o.width, o.blank, false⟩, []⟩
  | note label => ⟨.note label, []⟩

/-- The containers that a line starts one behind the other, innermost first, and what is left of the
line. -/
def openFrames (ext : Extensions) (interrupting : Bool) (opened : List Frame) (gs : List Glyph) :
    List Frame × List Glyph :=
  match containerOpening? ext interrupting gs with
  | none => (opened, gs)
  | some (opening, rest) =>
    if _h : rest.length < gs.length then
      openFrames ext interrupting (opening.frame :: opened) rest
    else (opened, gs)
termination_by gs.length

/-- A list with its next item open. -/
def OpenList.next (l : OpenList) (ends : LineEnds) (children : List Block) (o : ItemOpening) :
    OpenList :=
  { l with
    spread := l.spread || ends.separateItem
    items := l.item children :: l.items
    marker := o.span
    width := o.width
    startsBlank := o.blank
    exhausted := false }

end LiveMarkdown
