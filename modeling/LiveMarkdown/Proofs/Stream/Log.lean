import Mathlib
import LiveMarkdown.Proofs.Stream.Pieces

/-!
# The log of a session

The segments of a session are a log of what has arrived. Text extends the run at the end or opens a
new one, a node is put behind everything else, and nothing in front of that is touched. Neither what
an engine makes of a run nor where a node is grafted is looked at, so the log does not depend on
either: a session may even find another engine at every chunk. With one engine throughout such a
session is a run of `ingestAll`.

## Main definitions

* `Segment.piece`: the piece that a segment has arrived as.
* `Session.Logs`: the segments are the given pieces, with neighbouring texts made one.
* `Session.ingestEach`: values are taken in one after the other, each with an engine of its own.

## Main results

* `Session.Logs.ingestPlain`: what one text or node adds to the log.
* `Session.Logs.ingestEach`: the log of a run.
* `Session.log_is_lossless`: no two runs of text are neighbours, and all nodes and all text are
  kept.
-/

namespace LiveMarkdown

variable {engine : String → Except Fault (List Node)}

/-- The piece that a segment has arrived as. -/
def Segment.piece : Segment → Piece
  | .text t _ => .text t
  | .node n => .node n

namespace Piece

/-- The text that a piece is, if it is one. -/
def text? : Piece → Option String
  | text s => some s
  | node _ => none

/-- The node that a piece is, if it is one. -/
def node? : Piece → Option Node
  | text _ => none
  | node n => some n

@[simp] theorem text?_text (s : String) : (text s).text? = some s := rfl

@[simp] theorem text?_node (n : Node) : (node n).text? = none := rfl

@[simp] theorem node?_text (s : String) : (text s).node? = none := rfl

@[simp] theorem node?_node (n : Node) : (node n).node? = some n := rfl

end Piece

/-! ### What joining keeps -/

/-- A text in front of other pieces stands alone, joins a text, or stands in front of a node. -/
theorem joinTexts_text_cons_cases (t : String) (ps : List Piece) :
    (joinTexts ps = [] ∧ joinTexts (.text t :: ps) = [.text t]) ∨
      (∃ u more, joinTexts ps = .text u :: more ∧
        joinTexts (.text t :: ps) = .text (t ++ u) :: more) ∨
      ∃ n more, joinTexts ps = .node n :: more ∧
        joinTexts (.text t :: ps) = .text t :: .node n :: more := by
  cases h : joinTexts ps with
  | nil => exact Or.inl ⟨rfl, by simp [joinTexts, h]⟩
  | cons q more =>
    cases q with
    | text u => exact Or.inr (Or.inl ⟨u, more, rfl, by simp [joinTexts, h]⟩)
    | node n => exact Or.inr (Or.inr ⟨n, more, rfl, by simp [joinTexts, h]⟩)

/-- Once neighbouring texts have been made one, no two texts are neighbours. -/
theorem isChain_joinTexts (ps : List Piece) :
    (joinTexts ps).IsChain fun p q => p.text? = none ∨ q.text? = none := by
  induction ps with
  | nil => exact .nil
  | cons p ps ih =>
    cases p with
    | node n =>
      rw [joinTexts, List.isChain_cons]
      exact ⟨fun q _ => Or.inl rfl, ih⟩
    | text t =>
      rcases joinTexts_text_cons_cases t ps with ⟨-, hjoin⟩ | ⟨u, more, hps, hjoin⟩ |
        ⟨n, more, hps, hjoin⟩
      · rw [hjoin]
        exact .singleton _
      · rw [hps, List.isChain_cons] at ih
        rw [hjoin, List.isChain_cons]
        -- what follows the text is no text either way
        exact ⟨fun q hq => Or.inr ((ih.1 q hq).resolve_left (Option.some_ne_none u)), ih.2⟩
      · rw [hps] at ih
        rw [hjoin]
        exact .cons_cons (Or.inr rfl) ih

/-- Joining texts keeps the nodes, in order. -/
theorem filterMap_node?_joinTexts (ps : List Piece) :
    (joinTexts ps).filterMap Piece.node? = ps.filterMap Piece.node? := by
  induction ps with
  | nil => rfl
  | cons p ps ih =>
    cases p with
    | node n => simp [joinTexts, ih]
    | text t =>
      rw [List.filterMap_cons_none (Piece.node?_text t), ← ih]
      rcases joinTexts_text_cons_cases t ps with ⟨hps, hjoin⟩ | ⟨u, more, hps, hjoin⟩ |
        ⟨n, more, hps, hjoin⟩ <;>
        simp [hps, hjoin, List.filterMap_cons]

/-- Joining texts keeps the text. -/
theorem join_filterMap_text?_joinTexts (ps : List Piece) :
    String.join ((joinTexts ps).filterMap Piece.text?) =
      String.join (ps.filterMap Piece.text?) := by
  induction ps with
  | nil => rfl
  | cons p ps ih =>
    cases p with
    | node n => simp [joinTexts, List.filterMap_cons, ih]
    | text t =>
      rw [List.filterMap_cons_some (Piece.text?_text t), String.join_cons, ← ih]
      rcases joinTexts_text_cons_cases t ps with ⟨hps, hjoin⟩ | ⟨u, more, hps, hjoin⟩ |
        ⟨n, more, hps, hjoin⟩ <;>
        simp [hps, hjoin, List.filterMap_cons, String.append_assoc]

theorem completionSuffix_bne_empty (t : String) :
    (completionSuffix t != "") = !(completeText t.toList []).suffix.isEmpty := by
  rw [completionSuffix]
  cases (completeText t.toList []).suffix with
  | nil => rfl
  | cons c cs => simp

namespace Session

/-- The segments of a session have arrived as the given pieces, with neighbouring texts made one. -/
def Logs (s : Session) (pieces : List Piece) : Prop :=
  s.segments.map Segment.piece = joinTexts pieces

theorem logs_empty : Session.empty.Logs [] := rfl

/-! ### What arrives is logged -/

/-- Reading a run anew succeeds exactly when the engine does, and gives its reconciled reading. -/
theorem outcome_readRun_eq_ok_iff {s s' : Session} {earlier : List Segment} {run : String}
    {previous : List Node} :
    (s.readRun engine earlier run previous).outcome = .ok s' ↔
      ∃ parsed, engine (completeFragment run) = .ok parsed ∧
        s' = { segments :=
                 earlier ++ [.text run (reconcile previous parsed (completionSuffix run != "")).1]
               base := s.base
               document :=
                 (follow s.base
                   (reconcile previous parsed (completionSuffix run != "")).1).1 } := by
  simp only [readRun, Reported.outcome_bind_eq_ok_iff, Reported.outcome_report,
    Reported.outcome_ofExcept, Reported.outcome_pure, Except.ok.injEq, completeFragment,
    completionSuffix_bne_empty]
  constructor
  · rintro ⟨-, -, parsed, hparsed, -, -, -, -, rfl⟩
    exact ⟨parsed, hparsed, rfl⟩
  · rintro ⟨parsed, hparsed, rfl⟩
    exact ⟨(), trivial, parsed, hparsed, (), trivial, (), trivial, rfl⟩

/-- All that taking in text does: it opens a run, or extends the one at the end unless nothing has
arrived. -/
theorem ingestText_eq_ok_cases {s s' : Session} {t : String}
    (h : (s.ingestText engine t).outcome = .ok s') :
    (s.segments = [] ∧ (s.readRun engine [] t []).outcome = .ok s') ∨
      (∃ earlier n, s.segments = earlier ++ [.node n] ∧
        (s.readRun engine s.segments t []).outcome = .ok s') ∨
      ∃ earlier run nodes, s.segments = earlier ++ [.text run nodes] ∧
        ((t = "" ∧ s = s') ∨ (s.readRun engine earlier (run ++ t) nodes).outcome = .ok s') := by
  rcases List.eq_nil_or_concat s.segments with hnil | ⟨earlier, last, hconcat⟩
  · exact Or.inl ⟨hnil, by simpa [ingestText, hnil] using h⟩
  · rw [List.concat_eq_append] at hconcat
    cases last with
    | node n => exact Or.inr (Or.inl ⟨earlier, n, hconcat, by simpa [ingestText, hconcat] using h⟩)
    | text run nodes =>
      refine Or.inr (Or.inr ⟨earlier, run, nodes, hconcat, ?_⟩)
      by_cases ht : t = ""
      · exact Or.inl ⟨ht, by simpa [ingestText, hconcat, ht, Reported.pure] using h⟩
      · exact Or.inr (by simpa [ingestText, hconcat, ht] using h)

theorem map_piece_segments_readRun {s s' : Session} {earlier : List Segment} {run : String}
    {previous : List Node} (h : (s.readRun engine earlier run previous).outcome = .ok s') :
    s'.segments.map Segment.piece = earlier.map Segment.piece ++ [.text run] := by
  obtain ⟨parsed, -, rfl⟩ := outcome_readRun_eq_ok_iff.mp h
  rw [List.map_append]
  rfl

/-- Text extends the run at the end, or opens one. -/
theorem map_piece_segments_ingestText {s s' : Session} {t : String}
    (h : (s.ingestText engine t).outcome = .ok s') :
    s'.segments.map Segment.piece = extendText t (s.segments.map Segment.piece) := by
  rcases ingestText_eq_ok_cases h with
    ⟨hnil, hrun⟩ | ⟨earlier, n, hconcat, hrun⟩ | ⟨earlier, run, nodes, hconcat, hcase⟩
  · rw [map_piece_segments_readRun hrun, hnil]
    rfl
  · rw [map_piece_segments_readRun hrun, hconcat, List.map_append, List.map_singleton,
      Segment.piece, extendText_concat, List.append_assoc]
    rfl
  · rw [hconcat, List.map_append, List.map_singleton, Segment.piece, extendText_concat, extendText]
    rcases hcase with ⟨rfl, rfl⟩ | hrun
    · rw [hconcat, List.map_append, String.append_empty]
      rfl
    · exact map_piece_segments_readRun hrun

/-- A node that arrives is grafted onto the document, and ends the run. -/
theorem eq_of_ingestSingle {s s' : Session} {n : Node} (h : (s.ingestSingle n).outcome = .ok s') :
    s' = { segments := s.segments ++ [.node n], base := (s.document.append n).1,
           document := (s.document.append n).1 } :=
  (Except.ok.inj h).symm

/-- A text or a node that arrives is the next entry of the log. -/
theorem Logs.ingestPlain {s s' : Session} {pieces : List Piece} {p : Piece} (hs : s.Logs pieces)
    (h : (s.ingestPlain engine p).outcome = .ok s') : s'.Logs (pieces ++ [p]) := by
  cases p with
  | text t => rw [Logs, joinTexts_concat_text, ← hs, map_piece_segments_ingestText h]
  | node n =>
    have hsegments : s'.segments = s.segments ++ [.node n] :=
      congrArg Session.segments (eq_of_ingestSingle h)
    rw [Logs, joinTexts_concat_node, ← hs, hsegments, List.map_append]
    rfl

/-- A chunk is logged as the pieces that it counts as. -/
theorem Logs.ingest {s s' : Session} {pieces : List Piece} {chunk : Chunk} (hs : s.Logs pieces)
    (h : (s.ingest engine chunk).outcome = .ok s') :
    s'.Logs (pieces ++ chunk.pieces.flatMap Piece.expanded) := by
  rw [ingest_eq_foldlM_ingestPlain] at h
  have hpiece : ∀ (done : List Piece) (b : Session) (p : Piece) (b' : Session), b.Logs done →
      (b.ingestPlain engine p).outcome = .ok b' → b'.Logs (done ++ [p]) :=
        fun _ _ _ _ hb hp => hb.ingestPlain hp
  exact Reported.foldlM_invariant hpiece _ _ _ _ hs h

/-- Takes in values one after the other, where each may find another engine. -/
def ingestEach (s : Session) (steps : List ((String → Except Fault (List Node)) × Value)) :
    Reported Session :=
  steps.foldlM (fun (s : Session) step => s.ingestValue step.1 step.2) s

/-- Values that arrive are logged as the pieces that they count as. -/
theorem Logs.ingestEach {s s' : Session} {pieces : List Piece} (hs : s.Logs pieces)
    {steps : List ((String → Except Fault (List Node)) × Value)} {chunks : List Chunk}
    (hvalid : Chunk.ofValues (steps.map Prod.snd) = .ok chunks)
    (h : (s.ingestEach steps).outcome = .ok s') :
    s'.Logs (pieces ++ (Chunk.piecesList chunks).flatMap Piece.expanded) := by
  induction steps generalizing s pieces chunks with
  | nil =>
    obtain rfl : [] = chunks := by simpa [Chunk.ofValues] using hvalid
    obtain rfl : s = s' := by simpa [Session.ingestEach] using h
    simpa [Chunk.piecesList] using hs
  | cons step steps ih =>
    obtain ⟨c, cs, hv, hvs, rfl⟩ := Chunk.exists_of_ofValues_cons hvalid
    rw [Session.ingestEach, List.foldlM_cons, Reported.outcome_bind_eq_ok_iff] at h
    obtain ⟨t, ht, h⟩ := h
    have hfirst : (s.ingest step.1 c).outcome = .ok t := by
      rw [ingestValue, hv] at ht
      exact ht
    have hrest := ih (hs.ingest hfirst) hvs h
    rwa [List.append_assoc, ← List.flatMap_append, ← Chunk.piecesList] at hrest

/-- The text of a session is the text in its log. -/
theorem bufferedText_eq (s : Session) :
    s.bufferedText = String.join ((s.segments.map Segment.piece).filterMap Piece.text?) := by
  rw [bufferedText]
  induction s.segments with
  | nil => rfl
  | cons segment segments ih =>
    cases segment with
    | text t nodes => simpa [Segment.sourceText, Segment.piece] using ih
    | node n => simpa [Segment.sourceText, Segment.piece, List.filterMap_cons] using ih

/-- The segments of a session are a lossless log of what has arrived, whatever the engines make of
it. Lists of chunks are flattened, documents stand for their children, and neighbouring texts are
one run. So no two runs are neighbours, the nodes are the ones that have arrived, and the buffered
text is all the text that has. -/
theorem log_is_lossless {steps : List ((String → Except Fault (List Node)) × Value)}
    {chunks : List Chunk} {s : Session} (hvalid : Chunk.ofValues (steps.map Prod.snd) = .ok chunks)
    (h : (Session.empty.ingestEach steps).outcome = .ok s) :
    let arrived := (Chunk.piecesList chunks).flatMap Piece.expanded
    s.segments.map Segment.piece = joinTexts arrived ∧
      (s.segments.map Segment.piece).IsChain (fun p q => p.text? = none ∨ q.text? = none) ∧
      (s.segments.map Segment.piece).filterMap Piece.node? = arrived.filterMap Piece.node? ∧
      s.bufferedText = String.join (arrived.filterMap Piece.text?) := by
  intro arrived
  have hlog : s.segments.map Segment.piece = joinTexts arrived := logs_empty.ingestEach hvalid h
  rw [bufferedText_eq, hlog]
  exact ⟨rfl, isChain_joinTexts arrived, filterMap_node?_joinTexts arrived,
    join_filterMap_text?_joinTexts arrived⟩

/-- An empty document does not end a run, an empty text opens one behind a node, and the nodes of a
nested document arrive one by one. Two engines take turns: one reads nothing, the other sets
flags. -/
theorem log_is_lossless_with_two_engines :
    let rule : Node := .leaf .none .thematicBreak
    let reads : String → Except Fault (List Node) :=
      fun text => .ok [(Node.text text).markSynthetic]
    let ignores : String → Except Fault (List Node) := fun _ => .ok []
    let steps : List ((String → Except Fault (List Node)) × Value) :=
      [(reads, .text "*a"), (ignores, (Node.branch .none .document []).toValue),
        (ignores, .list [.text "b", .list [rule.toValue, .text ""]]),
        (reads, (Node.branch .none .document [.branch .none .document [rule], rule]).toValue),
        (reads, .list [.text "", .text "c"])]
    ∃ chunks s, Chunk.ofValues (steps.map Prod.snd) = .ok chunks ∧
      (Session.empty.ingestEach steps).outcome = .ok s ∧ s.segments.map Segment.piece =
        [.text "*ab", .node rule, .text "", .node rule, .node rule, .text "c"] ∧
      s.bufferedText = "*abc" := by
  intro rule reads ignores steps
  obtain ⟨chunks, hchunks⟩ : ∃ chunks, Chunk.ofValues (steps.map Prod.snd) = .ok chunks :=
    ⟨_, by cbv⟩
  obtain ⟨s, hs⟩ : ∃ s, (Session.empty.ingestEach steps).outcome = .ok s := ⟨_, by cbv⟩
  obtain ⟨hpieces, -, -, htext⟩ := log_is_lossless hchunks hs
  refine ⟨chunks, s, hchunks, hs, hpieces.trans ?_, htext.trans ?_⟩
  all_goals
    obtain rfl := Except.ok.inj hchunks
    cbv

end Session

end LiveMarkdown
