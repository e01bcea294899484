import LiveMarkdown.Graft.Basic
import LiveMarkdown.Reported
import LiveMarkdown.Value.Node

/-!
# Grafting values

The operations on documents for values that need not be nodes. Every value is checked when it is its
turn, so that the nodes in front of an invalid one have been appended, and their diagnostics
reported, by the time the failure shows.

## Main definitions

* `Value.toNode`, `Value.toDocument`: the node or document that a value is, or the fault.
* `appendNode`, `appendNodes`, `mergeDocuments`, `wrapDocument`: the checked operations.
-/

namespace LiveMarkdown

/-- The node that a value is. -/
def Value.toNode (v : Value) : Except Fault Node :=
  match Node.ofValue? v with
  | some n => .ok n
  | none => .error (.invalidNode v)

/-- The document that a value is. -/
def Value.toDocument (v : Value) : Except Fault Document :=
  match (Node.ofValue? v).bind Document.ofNode? with
  | some d => .ok d
  | none => .error (.invalidNode v)

/-- Appends a node that is still to be checked. -/
def graftValue (d : Document) (v : Value) : Reported Document :=
  (Reported.ofExcept v.toNode).bind fun n =>
    let (grown, diagnostics) := d.append n
    ⟨diagnostics, .ok grown⟩

/-- Appends one node. The document is checked first. -/
def appendNode (document node : Value) : Reported Document :=
  (Reported.ofExcept document.toDocument).bind fun d => graftValue d node

/-- Appends nodes in order. The document is checked first, and each node in its turn. -/
def appendNodes (document : Value) (nodes : List Value) : Reported Document :=
  (Reported.ofExcept document.toDocument).bind fun d => nodes.foldlM graftValue d

/-- Appends the children of a source to a target. The source is checked first. -/
def mergeDocuments (target source : Value) : Reported Document :=
  (Reported.ofExcept source.toDocument).bind fun s =>
    (Reported.ofExcept target.toDocument).bind fun t =>
      let (grown, diagnostics) := t.merge s
      ⟨diagnostics, .ok grown⟩

/-- A document that holds the given node or the given list of nodes. A document is returned as it
is, but inside a list it is a node like any other. -/
def wrapDocument (v : Value) : Except Fault Document :=
  match v with
  | .list items => (items.mapM Value.toNode).map Document.ofNodes
  | v => v.toNode.map fun n => (Document.ofNode? n).getD (.ofNodes [n])

end LiveMarkdown
