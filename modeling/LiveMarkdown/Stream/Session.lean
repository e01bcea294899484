import LiveMarkdown.Node.Equality
import LiveMarkdown.Stream.Chunk
import LiveMarkdown.Stream.Engine

/-!
# Stream sessions

A session takes chunks as they arrive and has a document after every one of them. Consecutive text
forms a run. The whole run is completed and read again whenever it grows, and the nodes of the new
reading that agree with the earlier one are kept. A node that arrives ends the run and is grafted
onto the document; a new run then follows the document as it stands.

## Main definitions

* `Segment`, `Session`: what has arrived, and the documents made of it.
* `reconcile`: the nodes of a new reading, as far as possible kept from an earlier one.
* `Session.ingest`, `Session.ingestAll`: taking in a chunk, and several.
-/

namespace LiveMarkdown

/-- What has arrived: a run of text with the nodes it was read into, or a node. -/
inductive Segment where
  | text (text : String) (nodes : List Node)
  | node (n : Node)
  deriving Repr

/-- The text of a segment. A node has none. -/
def Segment.sourceText : Segment → String
  | text s _ => s
  | node _ => ""

/-- The state of a stream. -/
structure Session where
  /-- What has arrived, in order. A run of text at the end is still open. -/
  segments : List Segment
  /-- The document of all that precedes the open run. -/
  base : Document
  /-- The document of all that has arrived. -/
  document : Document
  deriving Repr

/-- Nothing has arrived. -/
def Session.empty : Session := ⟨[], .empty, .empty⟩

instance : Inhabited Session := ⟨.empty⟩

/-- All text that has arrived. -/
def Session.bufferedText (s : Session) : String :=
  String.join (s.segments.map Segment.sourceText)

/-- The number of nodes that can be kept. A node is kept if nothing before it has changed, its
content has not, and it is marked as speculative exactly when it has to be: when it is the last node
of a reading that was completed. -/
def reusedCount (speculative : Bool) : List Node → List Node → Nat
  | p :: ps, n :: ns =>
    if p.hasFlag .speculative == (speculative && ns.isEmpty) && p.sameContent n then
      reusedCount speculative ps ns + 1
    else 0
  | _, _ => 0

/-- Marks the last node as speculative. Only the last one can depend on closers. -/
def markLast : List Node → List Node
  | [] => []
  | [n] => [n.addFlags .speculative]
  | n :: m :: ns => n :: markLast (m :: ns)

/-- The nodes of a new reading, where as many as possible are kept from an earlier one. -/
def reconcile (previous parsed : List Node) (speculative : Bool) : List Node × List Diagnostic :=
  let reused := reusedCount speculative previous parsed
  let fresh := parsed.drop reused
  let replaced := if speculative then markLast fresh else fresh
  let kept := if 0 < reused then [Diagnostic.nodesReused reused] else []
  let changed :=
    if 0 < replaced.length then
      [Diagnostic.nodesReplaced replaced.length (previous.length - reused)]
    else []
  (previous.take reused ++ replaced, kept ++ changed)

theorem reusedCount_le_left (speculative : Bool) (ps ns : List Node) :
    reusedCount speculative ps ns ≤ ps.length := by
  fun_induction reusedCount speculative ps ns with
  | case1 p ps n ns _ ih => simp only [List.length_cons]; omega
  | case2 => simp
  | case3 => simp

theorem reusedCount_le_right (speculative : Bool) (ps ns : List Node) :
    reusedCount speculative ps ns ≤ ns.length := by
  fun_induction reusedCount speculative ps ns with
  | case1 p ps n ns _ ih => simp only [List.length_cons]; omega
  | case2 => simp
  | case3 => simp

theorem length_markLast (ns : List Node) : (markLast ns).length = ns.length := by
  fun_induction markLast ns <;> simp_all

/-- A reading has as many nodes after it has been reconciled as before. -/
theorem length_reconcile (previous parsed : List Node) (speculative : Bool) :
    (reconcile previous parsed speculative).1.length = parsed.length := by
  have hl := reusedCount_le_left speculative previous parsed
  have hr := reusedCount_le_right speculative previous parsed
  cases speculative <;> simp [reconcile, length_markLast] <;> omega

namespace Session

/-- The document with the nodes of the open run behind it. The first of them may join what is there,
the others stay the separate blocks they were read as. -/
def follow (base : Document) : List Node → Document × List Diagnostic
  | [] => (base, [])
  | first :: rest =>
    let (grown, diagnostics) := base.append first
    ({ grown with children := grown.children ++ rest }, diagnostics)

/-- Reads the open run anew. `earlier` are the segments before the run, and `previous` the nodes of
its earlier reading. -/
def readRun (engine : String → Except Fault (List Node)) (s : Session) (earlier : List Segment)
    (run : String) (previous : List Node) : Reported Session := do
  let completion := completeText run.toList []
  let suffix := String.ofList completion.suffix
  let speculative := !completion.suffix.isEmpty
  Reported.report (if speculative then [.completionApplied suffix] else [])
  let parsed ← Reported.ofExcept (engine (String.ofList completion.completed))
  let (nodes, changes) := reconcile previous parsed speculative
  Reported.report changes
  let (document, grafts) := follow s.base nodes
  Reported.report grafts
  return { s with segments := earlier ++ [.text run nodes], document }

/-- Takes in text. It extends the open run if there is one; without any text the run stays as it
is. -/
def ingestText (engine : String → Except Fault (List Node)) (s : Session) (text : String) :
    Reported Session :=
  match s.segments.getLast? with
  | some (.text run nodes) =>
    if text.isEmpty then .pure s
    else s.readRun engine s.segments.dropLast (run ++ text) nodes
  | _ => s.readRun engine s.segments text []

/-- Takes in one node, which ends the open run. -/
def ingestSingle (s : Session) (n : Node) : Reported Session :=
  let (document, grafts) := s.document.append n
  ⟨grafts, .ok { segments := s.segments ++ [.node n], base := document, document }⟩

/-- Takes in a piece. A document is taken in as its children. -/
def ingestPiece (engine : String → Except Fault (List Node)) (s : Session) :
    Piece → Reported Session
  | .text t => s.ingestText engine t
  | .node n => n.withoutDocuments.foldlM ingestSingle s

/-- Takes in a chunk, piece by piece. -/
def ingest (engine : String → Except Fault (List Node)) (s : Session) (chunk : Chunk) :
    Reported Session :=
  chunk.pieces.foldlM (ingestPiece engine) s

/-- Takes in a value. It is checked as a whole before anything is done. -/
def ingestValue (engine : String → Except Fault (List Node)) (s : Session) (v : Value) :
    Reported Session :=
  (Reported.ofExcept (Chunk.ofValue v)).bind (s.ingest engine)

/-- Takes in values one after the other. Each is checked when it is its turn. -/
def ingestAll (engine : String → Except Fault (List Node)) (s : Session) (vs : List Value) :
    Reported Session :=
  vs.foldlM (ingestValue engine) s

end Session

end LiveMarkdown
