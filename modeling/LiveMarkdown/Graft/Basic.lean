import LiveMarkdown.Diagnostic
import LiveMarkdown.Graft.Table

/-!
# Grafting

A node is appended to a document where it fits: into the shallowest container on the rightmost path
that accepts it. The rightmost path leads from the document to its last child, the last child of
that one and so on, as far as these are containers; a document inside the document is not entered. A
part of a container that finds no such place is wrapped in its own container first. What fits
nowhere is put at the end of the document all the same, so that nothing is ever lost.

## Main definitions

* `Container.fits`: whether a container takes a node as its last child.
* `Node.joined?`, `appendChild`: adjacent containers of one sort become one.
* `Document.place?`: the document with a node put where it fits.
* `Node.wrapper?`: the container that is made for a part.
* `Document.append`, `Document.appendAll`, `Document.merge`: the operations.
-/

namespace LiveMarkdown

/-- Whether a container takes a node as its last child. A list item needs a list of its own type. -/
def Container.fits (c : Container) (n : Node) : Bool :=
  c.kind.accepts n.kind &&
    (match c, n with
     | .list a, .branch _ (.listItem b) _ => a.listType == b.listType
     | _, _ => true)

namespace Node

/-- Two adjacent containers as one: lists of one type, tables of one width, description lists. The
attributes of the first are kept; a list of tasks stays one. -/
def joined? : Node → Node → Option Node
  | branch f (.list a) ns, branch _ (.list b) ms =>
    if a.listType = b.listType then
      some (branch f (.list { a with isTaskList := a.isTaskList || b.isTaskList }) (ns ++ ms))
    else none
  | branch f (.table a) ns, branch _ (.table b) ms =>
    if a.numColumns = b.numColumns then some (branch f (.table (a.refresh (ns ++ ms))) (ns ++ ms))
    else none
  | branch f .descriptionList ns, branch _ .descriptionList ms =>
    some (branch f .descriptionList (ns ++ ms))
  | _, _ => none

end Node

/-- Siblings with a node appended; it joins the last of them if it can. -/
def appendChild (children : List Node) (n : Node) : List Node :=
  match children.getLast?.bind (fun last => last.joined? n) with
  | some joined => children.dropLast ++ [joined]
  | none => children ++ [n]

namespace Node

mutual

/-- A tree with a node put into the shallowest container on its rightmost path that takes it. -/
def insert? (n : Node) : Node → Option Node
  | leaf _ _ => none
  | branch f c children =>
    if c = .document then none
    else if c.fits n then
      let grown := appendChild children n
      some (branch f (c.refresh grown) grown)
    else
      match insertLast? n children with
      | some grown => some (branch f (c.refresh grown) grown)
      | none => none

/-- Siblings with a node put into the last of them. -/
def insertLast? (n : Node) : List Node → Option (List Node)
  | [] => none
  | [last] =>
    match insert? n last with
    | some grown => some [grown]
    | none => none
  | first :: second :: rest =>
    match insertLast? n (second :: rest) with
    | some grown => some (first :: grown)
    | none => none

end

/-- The container that is made for a part whose own container is missing. -/
def wrapper? : Node → Option Node
  | branch f (.listItem a) ns =>
    some (markSynthetic (list
      { listType := a.listType, start := a.start, bulletChar := a.bulletChar }
      [branch f (.listItem a) ns]))
  | branch f (.taskItem checked marker) ns =>
    some (markSynthetic (list { isTaskList := true } [branch f (.taskItem checked marker) ns]))
  | branch f (.tableRow header) ns =>
    some (markSynthetic (table [branch f (.tableRow header) ns] none))
  | branch f .tableCell ns => some (markSynthetic (tableRow false [branch f .tableCell ns]))
  | branch f .descriptionTerm ns =>
    some (markSynthetic (ofContainer .descriptionItem [branch f .descriptionTerm ns]))
  | branch f .descriptionDetails ns =>
    some (markSynthetic (ofContainer .descriptionItem [branch f .descriptionDetails ns]))
  | branch f .descriptionItem ns =>
    some (markSynthetic (ofContainer .descriptionList [branch f .descriptionItem ns]))
  | _ => none

/-- How many containers can be made around a part, one inside the other. -/
def wrapDepth : Node → Nat
  | branch _ (.listItem _) _ => 1
  | branch _ (.taskItem _ _) _ => 1
  | branch _ (.tableRow _) _ => 1
  | branch _ .tableCell _ => 2
  | branch _ .descriptionTerm _ => 2
  | branch _ .descriptionDetails _ => 2
  | branch _ .descriptionItem _ => 1
  | _ => 0

/-- Wrapping a part brings it closer to a block. -/
theorem wrapDepth_wrapper {n w : Node} (h : n.wrapper? = some w) : w.wrapDepth < n.wrapDepth := by
  unfold wrapper? at h
  split at h <;> simp only [Option.some.injEq, reduceCtorEq] at h
  all_goals
    subst h
    simp [wrapDepth, markSynthetic, addFlags, withFlags, list, table, tableRow, ofContainer]

end Node

namespace Document

/-- The document with a node put into the shallowest container on its rightmost path that takes
it. -/
def place? (d : Document) (n : Node) : Option Document :=
  if Container.document.fits n then some { d with children := appendChild d.children n }
  else (Node.insertLast? n d.children).map fun grown => { d with children := grown }

/-- Appends a node where it fits, wrapped if need be, and at the end of the document if nothing
takes it. -/
def append (d : Document) (n : Node) : Document × List Diagnostic :=
  match d.place? n with
  | some grown => (grown, [])
  | none =>
    match _h : n.wrapper? with
    | some wrapper =>
      let (grown, diagnostics) := d.append wrapper
      (grown, .nodeGrafted n.kind wrapper.kind :: diagnostics)
    | none => ({ d with children := appendChild d.children n }, [.contentModelFallback n.kind])
termination_by n.wrapDepth
decreasing_by exact Node.wrapDepth_wrapper _h

/-- Appends nodes one after the other. -/
def appendAll (d : Document) (ns : List Node) : Document × List Diagnostic :=
  ns.foldl (fun (acc : Document × List Diagnostic) n =>
    let (grown, diagnostics) := acc.1.append n
    (grown, acc.2 ++ diagnostics)) (d, [])

/-- Appends the children of another document. -/
def merge (target source : Document) : Document × List Diagnostic :=
  target.appendAll source.children

end Document

end LiveMarkdown
