import LiveMarkdown.Diagnostic

/-!
# Outcomes with diagnostics

Work that may fail reports diagnostics on its way. What has been reported before a failure stays
reported.

## Main definitions

* `Fault`: why work fails, with `Fault.name`, `Fault.code?` and `Fault.message`.
* `Reported`: an outcome together with the diagnostics reported up to it.
-/

namespace LiveMarkdown

/-- Why work fails. -/
inductive Fault where
  /-- A node was asked for and something else was given. -/
  | invalidNode (value : Value)
  /-- Text, a node or a list of those was asked for and something else was given. -/
  | invalidChunk (value : Value)
  /-- The engine that reads Markdown failed with a message of its own. -/
  | engine (message : String)
  deriving Repr

namespace Fault

/-- The name of a fault. -/
def name : Fault → String
  | invalidNode _ => "InvalidNodeError"
  | invalidChunk _ => "InvalidChunkError"
  | engine _ => "Error"

/-- The code of a fault. The faults of an engine have none. -/
def code? : Fault → Option String
  | invalidNode _ => some "invalid-node"
  | invalidChunk _ => some "invalid-chunk"
  | engine _ => none

/-- The wording of a fault. -/
def message : Fault → String
  | invalidNode v => "Expected an AST node, got: " ++ v.describe
  | invalidChunk v => "Expected text, a node or a list of those, got: " ++ v.describe
  | engine m => m

/-- The fields that tell of a fault. -/
def fields (f : Fault) : List (String × Value) :=
  [("error", .text f.name), ("message", .text f.message)] ++
    (f.code?.map fun c => [("code", Value.text c)]).getD []

end Fault

/-- An outcome, with the diagnostics reported up to it in the order of reporting. -/
structure Reported (α : Type) where
  diagnostics : List Diagnostic
  outcome : Except Fault α

namespace Reported

variable {α β : Type}

/-- An outcome without diagnostics. -/
def ofExcept (e : Except Fault α) : Reported α := ⟨[], e⟩

/-- Work that succeeds at once. -/
protected def pure (a : α) : Reported α := ⟨[], .ok a⟩

/-- Work that goes on with what came out before. A failure ends it. -/
protected def bind (r : Reported α) (f : α → Reported β) : Reported β :=
  match r.outcome with
  | .error e => ⟨r.diagnostics, .error e⟩
  | .ok a => ⟨r.diagnostics ++ (f a).diagnostics, (f a).outcome⟩

/-- Reports diagnostics. -/
def report (ds : List Diagnostic) : Reported Unit := ⟨ds, .ok ()⟩

instance : Monad Reported where
  pure := Reported.pure
  bind := Reported.bind

theorem bind_ok (ds : List Diagnostic) (a : α) (f : α → Reported β) :
    Reported.bind ⟨ds, .ok a⟩ f = ⟨ds ++ (f a).diagnostics, (f a).outcome⟩ := rfl

end Reported

end LiveMarkdown
