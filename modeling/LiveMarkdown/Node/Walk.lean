import LiveMarkdown.Node.Basic

/-!
# Walks

A walk visits the nodes of a tree and asks a visitor about each of them. Going down, a parent comes
before its children and the visitor may skip them; going up, it comes after them. Either walk ends
as soon as the visitor says so. The outcome of a walk is the list of the calls it made.

## Main definitions

* `VisitResult`, `Visitor`: what a visitor answers, and the visitor.
* `Call`: a call of the visitor.
* `Node.walkDown`, `Node.walkUp`: the calls of the two walks.
-/

namespace LiveMarkdown

/-- How a walk goes on after a call. -/
inductive VisitResult where
  /-- Go on with the children. -/
  | goOn
  /-- Go on without the children. -/
  | skip
  /-- End the walk. -/
  | stop
  deriving DecidableEq, Repr

/-- A visitor answers for a node and its parent, by kind where it has an answer for the kind, and
else in general. -/
structure Visitor where
  /-- The general answer. -/
  generic : Option (Node → Option Node → VisitResult)
  /-- The answers by kind. -/
  specific : NodeKind → Option (Node → Option Node → VisitResult)

/-- Which of its answers a visitor gave. -/
inductive Callback where
  | generic
  | specific
  deriving DecidableEq, Repr

/-- A call of a visitor. -/
structure Call where
  callback : Callback
  node : Node
  parent : Option Node
  deriving Repr

/-- The calls of a walk so far, and whether the walk has ended. -/
structure Walk where
  calls : List Call
  stopped : Bool
  deriving Repr

namespace Visitor

/-- A visitor with one answer for all kinds. -/
def ofGeneric (answer : Node → Option Node → VisitResult) : Visitor :=
  ⟨some answer, fun _ => none⟩

/-- Asks the visitor about a node. Without an answer there is no call and the walk goes on. -/
def visit (v : Visitor) (node : Node) (parent : Option Node) : List Call × VisitResult :=
  match v.specific node.kind with
  | some answer => ([⟨.specific, node, parent⟩], answer node parent)
  | none =>
    match v.generic with
    | some answer => ([⟨.generic, node, parent⟩], answer node parent)
    | none => ([], .goOn)

end Visitor

namespace Walk

/-- A walk that goes on with another one, unless it has ended. -/
def andThen (w : Walk) (next : Walk) : Walk :=
  if w.stopped then w else ⟨w.calls ++ next.calls, next.stopped⟩

end Walk

namespace Node

mutual

/-- The walk that visits a node before its children. -/
def walkDownFrom (v : Visitor) (parent : Option Node) : Node → Walk
  | leaf f l =>
    let (calls, result) := v.visit (leaf f l) parent
    ⟨calls, result = .stop⟩
  | branch f c children =>
    let (calls, result) := v.visit (branch f c children) parent
    match result with
    | .stop => ⟨calls, true⟩
    | .skip => ⟨calls, false⟩
    | .goOn => Walk.andThen ⟨calls, false⟩ (walkDownList v (some (branch f c children)) children)

/-- The walks from siblings, one after the other. -/
def walkDownList (v : Visitor) (parent : Option Node) : List Node → Walk
  | [] => ⟨[], false⟩
  | n :: ns => Walk.andThen (walkDownFrom v parent n) (walkDownList v parent ns)

end

mutual

/-- The walk that visits a node after its children. -/
def walkUpFrom (v : Visitor) (parent : Option Node) : Node → Walk
  | leaf f l =>
    let (calls, result) := v.visit (leaf f l) parent
    ⟨calls, result = .stop⟩
  | branch f c children =>
    let (calls, result) := v.visit (branch f c children) parent
    Walk.andThen (walkUpList v (some (branch f c children)) children) ⟨calls, result = .stop⟩

/-- The walks from siblings, one after the other. -/
def walkUpList (v : Visitor) (parent : Option Node) : List Node → Walk
  | [] => ⟨[], false⟩
  | n :: ns => Walk.andThen (walkUpFrom v parent n) (walkUpList v parent ns)

end

/-- The calls of a walk from the root down. -/
def walkDown (v : Visitor) (root : Node) : List Call :=
  (walkDownFrom v none root).calls

/-- The calls of a walk from the leaves up. -/
def walkUp (v : Visitor) (root : Node) : List Call :=
  (walkUpFrom v none root).calls

end Node

end LiveMarkdown
