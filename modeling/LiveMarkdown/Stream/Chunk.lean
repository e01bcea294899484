import LiveMarkdown.Graft.Checked

/-!
# Chunks

A chunk is what arrives at once: text, a node, or a list of chunks. It is taken apart into pieces in
order, where a document counts as its children.

## Main definitions

* `Chunk`, `Chunk.ofValue`: a chunk, and the chunk that a value is.
* `Piece`, `Chunk.pieces`: text or a node, and the pieces of a chunk.
* `Node.withoutDocuments`: the nodes that a node counts as.
-/

namespace LiveMarkdown

/-- Text, a node, or a list of chunks. -/
inductive Chunk where
  | text (s : String)
  | node (n : Node)
  | list (chunks : List Chunk)
  deriving Repr

namespace Chunk

mutual

/-- The chunk that a value is. The fault names the first part, in order, that is neither text nor a
node nor a list. -/
def ofValue : Value → Except Fault Chunk
  | .text s => .ok (.text s)
  | .list items => (ofValues items).map .list
  | v =>
    match Node.ofValue? v with
    | some n => .ok (.node n)
    | none => .error (.invalidChunk v)

/-- The chunks that values are. -/
def ofValues : List Value → Except Fault (List Chunk)
  | [] => .ok []
  | v :: vs =>
    match ofValue v with
    | .error e => .error e
    | .ok c => (ofValues vs).map (c :: ·)

end

end Chunk

/-- Text or a node. -/
inductive Piece where
  | text (s : String)
  | node (n : Node)
  deriving Repr

namespace Chunk

mutual

/-- The pieces of a chunk, in order. -/
def pieces : Chunk → List Piece
  | text s => [.text s]
  | node n => [.node n]
  | list chunks => piecesList chunks

/-- The pieces of chunks, one after the other. -/
def piecesList : List Chunk → List Piece
  | [] => []
  | c :: cs => pieces c ++ piecesList cs

end

end Chunk

namespace Node

mutual

/-- The nodes that a node counts as: a document stands for its children, and so do they in turn. -/
def withoutDocuments : Node → List Node
  | leaf f l => [leaf f l]
  | branch f c children =>
    if c = .document then withoutDocumentsList children else [branch f c children]

/-- The nodes that siblings count as. -/
def withoutDocumentsList : List Node → List Node
  | [] => []
  | n :: ns => withoutDocuments n ++ withoutDocumentsList ns

end

end Node

end LiveMarkdown
