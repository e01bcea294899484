import LiveMarkdown.Node.ContentModel
import LiveMarkdown.Text.Quoted
import LiveMarkdown.Value.Basic

/-!
# Diagnostics

Work on a document never fails because of what the document looks like. What was out of the ordinary
is told in diagnostics, in the order in which it happened. A diagnostic is its cause; how it is
worded is decided here, in one place.

## Main definitions

* `Diagnostic`: the causes.
* `Diagnostic.severity`, `Diagnostic.category`, `Diagnostic.code`, `Diagnostic.message`,
  `Diagnostic.context`: what is told about a cause.
* `Node.contentModelDiagnostics`: the violations of the content model as diagnostics.
-/

namespace LiveMarkdown

/-- Something worth telling. -/
inductive Diagnostic where
  /-- A fragment was completed with the given closers. -/
  | completionApplied (suffix : String)
  /-- So many nodes of an earlier parse were kept. -/
  | nodesReused (count : Nat)
  /-- So many nodes were taken from a new parse, in the place of so many that were dropped. -/
  | nodesReplaced (count dropped : Nat)
  /-- A node was put into a container made for it. -/
  | nodeGrafted (node wrapper : NodeKind)
  /-- A node that no container accepts was put at the end of the document. -/
  | contentModelFallback (node : NodeKind)
  /-- A parent holds a child that it does not accept. -/
  | contentModelViolation (parent child : NodeKind) (place : List Nat)
  deriving DecidableEq, Repr

namespace Diagnostic

/-- How serious a cause is. -/
def severity : Diagnostic → String
  | contentModelFallback _ => "warning"
  | contentModelViolation _ _ _ => "warning"
  | _ => "info"

/-- The part of the work that a cause belongs to. -/
def category : Diagnostic → String
  | completionApplied _ => "completion"
  | nodesReused _ => "reconciliation"
  | nodesReplaced _ _ => "reconciliation"
  | nodeGrafted _ _ => "structure"
  | contentModelFallback _ => "structure"
  | contentModelViolation _ _ _ => "structure"

/-- The name of a cause. -/
def code : Diagnostic → String
  | completionApplied _ => "completion-applied"
  | nodesReused _ => "nodes-reused"
  | nodesReplaced _ _ => "nodes-replaced"
  | nodeGrafted _ _ => "node-grafted"
  | contentModelFallback _ => "content-model-fallback"
  | contentModelViolation _ _ _ => "content-model-violation"

/-- The wording of a cause. -/
def message : Diagnostic → String
  | completionApplied suffix => "Completed open constructs with " ++ quoted suffix
  | nodesReused count => "Reused " ++ toString count ++ " unchanged node(s)"
  | nodesReplaced count _ => "Replaced " ++ toString count ++ " node(s)"
  | nodeGrafted node wrapper => "Wrapped " ++ node.name ++ " in " ++ wrapper.name
  | contentModelFallback node =>
    "No container accepts " ++ node.name ++ "; appended to the document root"
  | contentModelViolation parent child _ => parent.name ++ " does not accept " ++ child.name

/-- The particulars of a cause. -/
def context : Diagnostic → List (String × Value)
  | completionApplied suffix => [("suffix", .text suffix)]
  | nodesReused count => [("count", .ofNat count)]
  | nodesReplaced count dropped => [("count", .ofNat count), ("dropped", .ofNat dropped)]
  | nodeGrafted node wrapper => [("node", .text node.name), ("wrapper", .text wrapper.name)]
  | contentModelFallback node => [("node", .text node.name)]
  | contentModelViolation parent child place =>
    [("parent", .text parent.name), ("child", .text child.name),
      ("path", .list (place.map .ofNat))]

/-- The record of a diagnostic. -/
def toValue (d : Diagnostic) : Value :=
  .record [("severity", .text d.severity), ("category", .text d.category), ("code", .text d.code),
    ("message", .text d.message), ("context", .record d.context)]

end Diagnostic

/-- The diagnostic of a violation. -/
def Violation.toDiagnostic (v : Violation) : Diagnostic :=
  .contentModelViolation v.parent.kind v.child.kind v.place

/-- The violations of the content model in a tree, as diagnostics. -/
def Node.contentModelDiagnostics (root : Node) : List Diagnostic :=
  root.violations.map Violation.toDiagnostic

end LiveMarkdown
