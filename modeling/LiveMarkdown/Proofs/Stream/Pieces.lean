import LiveMarkdown.Proofs.Outcome
import LiveMarkdown.Stream.Session

/-!
# What chunks amount to

Nesting of lists, the root of a document that arrives as a node, and the places where text was cut
are not part of what a stream delivers. What a list of chunks amounts to is the sequence of its
pieces, with documents replaced by what they count as and neighbouring texts made one. Taking in
chunks is taking in these pieces one after the other, apart from the joining of texts, which the
session does by itself.

## Main definitions

* `Piece.expanded`: the pieces that a piece counts as.
* `joinTexts`: pieces with neighbouring texts made one.
* `Chunk.content`: what a list of chunks amounts to.
* `Session.ingestPlain`: taking in a text or a node that is no document.

## Main results

* `joinTexts_concat_text`, `joinTexts_concat_node`: one more piece at the end.
* `Session.ingestAll_eq_foldlM_ingestPlain`: taking in chunks is taking in their expanded pieces.
-/

namespace LiveMarkdown

/-- The pieces that a piece counts as: a document counts as its children, and so do they in turn. -/
def Piece.expanded : Piece → List Piece
  | .text s => [.text s]
  | .node n => n.withoutDocuments.map .node

/-- Pieces with neighbouring texts made one. -/
def joinTexts : List Piece → List Piece
  | [] => []
  | .text s :: rest =>
    match joinTexts rest with
    | .text t :: more => .text (s ++ t) :: more
    | others => .text s :: others
  | .node n :: rest => .node n :: joinTexts rest

/-- What a list of chunks amounts to. -/
def Chunk.content (chunks : List Chunk) : List Piece :=
  joinTexts ((Chunk.piecesList chunks).flatMap Piece.expanded)

/-- Pieces with one more text, which joins a text at the end. -/
def extendText (t : String) : List Piece → List Piece
  | [] => [.text t]
  | [.text s] => [.text (s ++ t)]
  | [.node n] => [.node n, .text t]
  | p :: q :: ps => p :: extendText t (q :: ps)

/-- Only the last piece decides whether a text joins what is there. -/
theorem extendText_concat (t : String) (ps : List Piece) (p : Piece) :
    extendText t (ps ++ [p]) = ps ++ extendText t [p] := by
  induction ps with
  | nil => rfl
  | cons q ps ih =>
    cases ps with
    | nil => cases q <;> rfl
    | cons q' ps => cases q <;> exact congrArg (_ :: ·) ih

/-- A text at the end joins a text before it. -/
theorem joinTexts_concat_text (ps : List Piece) (t : String) :
    joinTexts (ps ++ [.text t]) = extendText t (joinTexts ps) := by
  induction ps with
  | nil => rfl
  | cons p ps ih =>
    cases p with
    | node n =>
      rw [List.cons_append, joinTexts, ih, joinTexts]
      cases joinTexts ps <;> rfl
    | text s =>
      rw [List.cons_append, joinTexts, ih, joinTexts]
      cases joinTexts ps with
      | nil => rfl
      | cons q qs =>
        cases q <;> cases qs <;> simp [extendText, String.append_assoc]

/-- A node at the end joins nothing. -/
theorem joinTexts_concat_node (ps : List Piece) (n : Node) :
    joinTexts (ps ++ [.node n]) = joinTexts ps ++ [.node n] := by
  induction ps with
  | nil => rfl
  | cons p ps ih =>
    cases p with
    | node m => rw [List.cons_append, joinTexts, ih, joinTexts, List.cons_append]
    | text s =>
      rw [List.cons_append, joinTexts, ih, joinTexts]
      cases joinTexts ps with
      | nil => rfl
      | cons q qs => cases q <;> rfl

/-- Texts alone amount to one text. -/
theorem joinTexts_map_text {ts : List String} (h : ts ≠ []) :
    joinTexts (ts.map .text) = [.text (String.join ts)] := by
  induction ts with
  | nil => exact absurd rfl h
  | cons t ts ih =>
    rw [List.map_cons, joinTexts, String.join_cons]
    by_cases hts : ts = []
    · subst hts
      simp [joinTexts]
    · rw [ih hts]

/-! ### Values that are chunks -/

theorem Chunk.exists_of_ofValues_cons {v : Value} {vs : List Value} {chunks : List Chunk}
    (h : Chunk.ofValues (v :: vs) = .ok chunks) :
    ∃ c cs, Chunk.ofValue v = .ok c ∧ Chunk.ofValues vs = .ok cs ∧ chunks = c :: cs := by
  rw [Chunk.ofValues] at h
  cases hv : Chunk.ofValue v with
  | error e => simp [hv] at h
  | ok c =>
    cases hvs : Chunk.ofValues vs with
    | error e => simp [hv, hvs, Except.map] at h
    | ok cs => exact ⟨c, cs, rfl, rfl, by simpa [hv, hvs, Except.map, eq_comm] using h⟩

theorem Chunk.ofValues_map_text :
    (ts : List String) → Chunk.ofValues (ts.map .text) = .ok (ts.map .text)
  | [] => rfl
  | t :: ts => by rw [List.map_cons, Chunk.ofValues, Chunk.ofValue, Chunk.ofValues_map_text ts]; rfl

theorem Chunk.flatMap_expanded_piecesList_map_text :
    (ts : List String) → (Chunk.piecesList (ts.map .text)).flatMap Piece.expanded = ts.map .text
  | [] => rfl
  | t :: ts => by
    rw [List.map_cons, Chunk.piecesList, List.flatMap_append,
      Chunk.flatMap_expanded_piecesList_map_text ts]
    rfl

namespace Session

/-- Takes in a text or a node that is no document. -/
def ingestPlain (engine : String → Except Fault (List Node)) (s : Session) :
    Piece → Reported Session
  | .text t => s.ingestText engine t
  | .node n => s.ingestSingle n

variable (engine : String → Except Fault (List Node))

theorem ingestPiece_eq_foldlM_ingestPlain (s : Session) (p : Piece) :
    ingestPiece engine s p = p.expanded.foldlM (ingestPlain engine) s := by
  cases p with
  | text t => exact (bind_pure (s.ingestText engine t)).symm
  | node n =>
    rw [Piece.expanded, List.foldlM_map]
    rfl

theorem ingest_eq_foldlM_ingestPlain (s : Session) (chunk : Chunk) :
    s.ingest engine chunk =
      (chunk.pieces.flatMap Piece.expanded).foldlM (ingestPlain engine) s := by
  rw [Reported.foldlM_flatMap, ingest]
  congr 1
  funext s p
  exact ingestPiece_eq_foldlM_ingestPlain engine s p

/-- Taking in valid chunks is taking in their expanded pieces, one after the other. -/
theorem ingestAll_eq_foldlM_ingestPlain {vs : List Value} {chunks : List Chunk}
    (hvalid : Chunk.ofValues vs = .ok chunks) (s : Session) :
    s.ingestAll engine vs =
      ((Chunk.piecesList chunks).flatMap Piece.expanded).foldlM (ingestPlain engine) s := by
  induction vs generalizing chunks s with
  | nil =>
    obtain rfl : [] = chunks := by simpa [Chunk.ofValues] using hvalid
    rfl
  | cons v vs ih =>
    obtain ⟨c, cs, hv, hvs, rfl⟩ := Chunk.exists_of_ofValues_cons hvalid
    have hfirst : s.ingestValue engine v = s.ingest engine c := by
      rw [ingestValue, hv]
      rfl
    rw [ingestAll, List.foldlM_cons, hfirst, Chunk.piecesList, List.flatMap_append,
      List.foldlM_append, ingest_eq_foldlM_ingestPlain]
    exact bind_congr fun t => ih hvs t

end Session

end LiveMarkdown
