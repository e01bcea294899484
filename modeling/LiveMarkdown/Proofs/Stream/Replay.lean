import Mathlib
import LiveMarkdown.Proofs.Stream.Log
import LiveMarkdown.Proofs.Stream.Marking

/-!
# Sessions as replays

The document of a session can be replayed from what has arrived: starting from an empty document,
every run of text adds its nodes behind what is there, and every node is grafted. The nodes of a run
are the marked reading of its completed text, whatever the earlier, shorter readings of the run
looked like. Both hold after every step of a session whose engine sets no flags. A session is
therefore determined by what its chunks amount to, and cutting the text elsewhere, nesting the
chunks differently or sending empty text next to other text makes no difference.

## Main definitions

* `Segment.IsRead`: the nodes of a run are the marked reading of its text.
* `documentOf`: the document replayed from segments.
* `Session.IsReplay`: the invariant of sessions.

## Main results

* `Session.IsReplay.ingestText`, `Session.IsReplay.ingestSingle`: what one step does.
* `Session.isReplay_ingestAll`: what a whole run does.
* `Session.ingestAll_determined_by_content`: equal content gives equal sessions.
-/

namespace LiveMarkdown

variable {engine : String → Except Fault (List Node)}

/-- The engine sets no flags, at any depth. -/
def SetsNoFlags (engine : String → Except Fault (List Node)) : Prop :=
  ∀ text nodes, engine text = .ok nodes → ∀ n ∈ nodes, n.Unflagged

/-- The nodes of a run are the marked reading of its completed text. -/
def Segment.IsRead (engine : String → Except Fault (List Node)) : Segment → Prop
  | .text t nodes => ∃ parsed, engine (completeFragment t) = .ok parsed ∧
      nodes = markedReading (completionSuffix t != "") parsed
  | .node _ => True

/-- The document replayed from segments. -/
def documentOf (segments : List Segment) : Document :=
  segments.foldl (fun d segment =>
    match segment with
    | .text _ nodes => (Session.follow d nodes).1
    | .node n => (d.append n).1) .empty

/-- The segments before the open run. -/
def sealedSegments (segments : List Segment) : List Segment :=
  match segments.getLast? with
  | some (.text _ _) => segments.dropLast
  | _ => segments

theorem documentOf_concat_text (segments : List Segment) (t : String) (nodes : List Node) :
    documentOf (segments ++ [.text t nodes]) = (Session.follow (documentOf segments) nodes).1 := by
  rw [documentOf, List.foldl_append]
  rfl

theorem documentOf_concat_node (segments : List Segment) (n : Node) :
    documentOf (segments ++ [.node n]) = ((documentOf segments).append n).1 := by
  rw [documentOf, List.foldl_append]
  rfl

theorem sealedSegments_concat_text (segments : List Segment) (t : String) (nodes : List Node) :
    sealedSegments (segments ++ [.text t nodes]) = segments := by
  simp [sealedSegments]

theorem sealedSegments_concat_node (segments : List Segment) (n : Node) :
    sealedSegments (segments ++ [.node n]) = segments ++ [.node n] := by
  simp [sealedSegments]

/-- Runs of the same text are read into the same nodes. -/
theorem Segment.IsRead.eq_of_piece_eq {a b : Segment} (ha : a.IsRead engine) (hb : b.IsRead engine)
    (h : a.piece = b.piece) : a = b := by
  cases a with
  | node n =>
    cases b with
    | node m => exact congrArg Segment.node (Piece.node.inj h)
    | text t nodes => cases h
  | text t nodes =>
    cases b with
    | node m => cases h
    | text u nodes' =>
      obtain rfl : t = u := Piece.text.inj h
      obtain ⟨parsed, hparsed, rfl⟩ := ha
      obtain ⟨parsed', hparsed', rfl⟩ := hb
      obtain rfl : parsed = parsed' := Except.ok.inj (hparsed.symm.trans hparsed')
      rfl

theorem Segment.IsRead.isMarkedReading (hengine : SetsNoFlags engine) {t : String}
    {nodes : List Node} (h : (Segment.text t nodes).IsRead engine) : IsMarkedReading nodes := by
  obtain ⟨parsed, hparsed, rfl⟩ := h
  exact ⟨_, parsed, hengine _ _ hparsed, rfl⟩

/-- Segments that have been read are determined by the pieces they have arrived as. -/
theorem eq_of_map_piece_eq :
    ∀ {as bs : List Segment}, (∀ a ∈ as, a.IsRead engine) → (∀ b ∈ bs, b.IsRead engine) →
      as.map Segment.piece = bs.map Segment.piece → as = bs
  | [], [], _, _, _ => rfl
  | [], _ :: _, _, _, h => by simp at h
  | _ :: _, [], _, _, h => by simp at h
  | a :: as, b :: bs, ha, hb, h => by
    rw [List.map_cons, List.map_cons, List.cons.injEq] at h
    obtain rfl := (ha a List.mem_cons_self).eq_of_piece_eq (hb b List.mem_cons_self) h.1
    obtain rfl := eq_of_map_piece_eq (fun x hx => ha x (List.mem_cons_of_mem a hx))
      (fun x hx => hb x (List.mem_cons_of_mem a hx)) h.2
    rfl

namespace Session

/-- The session is a replay of its segments, and these have arrived as the given pieces, with
neighbouring texts made one. -/
structure IsReplay (engine : String → Except Fault (List Node)) (pieces : List Piece)
    (s : Session) :
    Prop where
  pieces_eq : s.segments.map Segment.piece = joinTexts pieces
  isRead : ∀ segment ∈ s.segments, segment.IsRead engine
  base_eq : s.base = documentOf (sealedSegments s.segments)
  document_eq : s.document = documentOf s.segments

theorem isReplay_empty : IsReplay engine [] .empty := ⟨rfl, by simp [Session.empty], rfl, rfl⟩

/-- The run that follows sealed segments, read anew after an earlier marked reading. -/
theorem IsReplay.of_readRun (hengine : SetsNoFlags engine) {pieces : List Piece} {s s' : Session}
    {earlier : List Segment} {run : String} {previous : List Node}
    (hread : ∀ segment ∈ earlier, segment.IsRead engine) (hbase : s.base = documentOf earlier)
    (hprevious : IsMarkedReading previous) (hlog : s'.Logs pieces)
    (h : (s.readRun engine earlier run previous).outcome = .ok s') : IsReplay engine pieces s' := by
  obtain ⟨parsed, hparsed, rfl⟩ := outcome_readRun_eq_ok_iff.mp h
  rw [reconcile_eq_markedReading _ hprevious (hengine _ _ hparsed)] at hlog ⊢
  refine ⟨hlog, ?_, ?_, ?_⟩
  · intro segment hsegment
    rcases List.mem_append.mp hsegment with hsegment | hsegment
    · exact hread segment hsegment
    · obtain rfl := List.mem_singleton.mp hsegment
      exact ⟨parsed, hparsed, rfl⟩
  · rw [sealedSegments_concat_text, ← hbase]
  · rw [documentOf_concat_text, ← hbase]

/-- Taking in text keeps a session a replay. -/
theorem IsReplay.ingestText (hengine : SetsNoFlags engine) {pieces : List Piece} {s s' : Session}
    {t : String} (hs : IsReplay engine pieces s) (h : (s.ingestText engine t).outcome = .ok s') :
    IsReplay engine (pieces ++ [.text t]) s' := by
  have hlog : s'.Logs (pieces ++ [.text t]) := Logs.ingestPlain hs.pieces_eq h
  rcases ingestText_eq_ok_cases h with
    ⟨hnil, hrun⟩ | ⟨earlier, n, hconcat, hrun⟩ | ⟨earlier, run, nodes, hconcat, hcase⟩
  · refine IsReplay.of_readRun hengine (by simp) ?_ ⟨false, [], by simp, rfl⟩ hlog hrun
    rw [hs.base_eq, hnil]
    rfl
  · refine IsReplay.of_readRun hengine hs.isRead ?_ ⟨false, [], by simp, rfl⟩ hlog hrun
    rw [hs.base_eq, hconcat, sealedSegments_concat_node]
  · rcases hcase with ⟨-, rfl⟩ | hrun
    · exact ⟨hlog, hs.isRead, hs.base_eq, hs.document_eq⟩
    · have hlast : (Segment.text run nodes).IsRead engine := hs.isRead _ (by simp [hconcat])
      refine IsReplay.of_readRun hengine ?_ ?_ (hlast.isMarkedReading hengine) hlog hrun
      · exact fun segment hsegment => hs.isRead segment (by simp [hconcat, hsegment])
      · rw [hs.base_eq, hconcat, sealedSegments_concat_text]

/-- Taking in a node keeps a session a replay. -/
theorem IsReplay.ingestSingle {pieces : List Piece} {s s' : Session} {n : Node}
    (hs : IsReplay engine pieces s) (h : (s.ingestSingle n).outcome = .ok s') :
    IsReplay engine (pieces ++ [.node n]) s' := by
  have hplain : (s.ingestPlain engine (.node n)).outcome = .ok s' := h
  have hlog : s'.Logs (pieces ++ [.node n]) := Logs.ingestPlain hs.pieces_eq hplain
  obtain rfl := eq_of_ingestSingle h
  refine ⟨hlog, ?_, ?_, ?_⟩
  · intro segment hsegment
    rcases List.mem_append.mp hsegment with hsegment | hsegment
    · exact hs.isRead segment hsegment
    · obtain rfl := List.mem_singleton.mp hsegment
      trivial
  · rw [sealedSegments_concat_node, documentOf_concat_node, ← hs.document_eq]
  · rw [documentOf_concat_node, ← hs.document_eq]

theorem IsReplay.ingestPlain (hengine : SetsNoFlags engine) {pieces : List Piece} {s s' : Session}
    {p : Piece} (hs : IsReplay engine pieces s) (h : (s.ingestPlain engine p).outcome = .ok s') :
    IsReplay engine (pieces ++ [p]) s' := by
  cases p with
  | text t => exact hs.ingestText hengine h
  | node n => exact hs.ingestSingle h

/-- After a run that succeeds the session is a replay of all that has arrived. -/
theorem isReplay_ingestAll (hengine : SetsNoFlags engine) {vs : List Value} {chunks : List Chunk}
    {s : Session} (hvalid : Chunk.ofValues vs = .ok chunks)
    (h : (ingestAll engine .empty vs).outcome = .ok s) :
    IsReplay engine ((Chunk.piecesList chunks).flatMap Piece.expanded) s := by
  rw [ingestAll_eq_foldlM_ingestPlain engine hvalid] at h
  exact Reported.foldlM_invariant (fun done b a b' hb hstep => hb.ingestPlain hengine hstep)
    _ [] _ _ isReplay_empty h

/-- A replay is determined by the pieces that its segments have arrived as. -/
theorem IsReplay.eq_of_joinTexts_eq {pieces pieces' : List Piece} {s s' : Session}
    (hs : IsReplay engine pieces s) (hs' : IsReplay engine pieces' s')
    (h : joinTexts pieces = joinTexts pieces') : s = s' := by
  have hsegments : s.segments = s'.segments :=
    eq_of_map_piece_eq hs.isRead hs'.isRead (by rw [hs.pieces_eq, hs'.pieces_eq, h])
  have hbase : s.base = s'.base := by rw [hs.base_eq, hs'.base_eq, hsegments]
  have hdocument : s.document = s'.document := by rw [hs.document_eq, hs'.document_eq, hsegments]
  cases s
  cases s'
  simp_all

/-- A session depends only on what its chunks amount to: not on where the text was cut, on how the
chunks were nested, on empty text next to other text, or on what earlier readings of a run looked
like. -/
theorem ingestAll_determined_by_content (hengine : SetsNoFlags engine) {vs vs' : List Value}
    {chunks chunks' : List Chunk} {s s' : Session} (hvalid : Chunk.ofValues vs = .ok chunks)
    (hvalid' : Chunk.ofValues vs' = .ok chunks')
    (hcontent : Chunk.content chunks = Chunk.content chunks')
    (h : (ingestAll engine .empty vs).outcome = .ok s)
    (h' : (ingestAll engine .empty vs').outcome = .ok s') :
    s = s' :=
  (isReplay_ingestAll hengine hvalid h).eq_of_joinTexts_eq (isReplay_ingestAll hengine hvalid' h')
    hcontent

/-- An engine that reads any text as two lists side by side. -/
def twoListsEngine : Engine := fun _ text =>
  .ok [Node.list {} [Node.listItem {} [Node.paragraph [Node.text text]]],
    Node.list {} [Node.listItem {} []]]

theorem setsNoFlags_twoListsEngine (options : EngineOptions) :
    SetsNoFlags (twoListsEngine options) := by
  intro text nodes hnodes n hn
  obtain rfl := Except.ok.inj hnodes
  rcases List.mem_cons.mp hn with rfl | hn
  · rfl
  · obtain rfl := List.mem_singleton.mp hn
    rfl

/-- Two ways to send a text and a thematic break: lists of chunks, empty texts and an empty document
inside a document that arrives as a node leave no trace. -/
theorem ingestAll_eq_of_recut :
    let rule : Node := .leaf .none .thematicBreak
    let wrapped : Node := .branch .none .document [.branch .none .document [], rule]
    let vs : List Value := [.list [.text "*a", .list [.text ""]], wrapped.toValue]
    let vs' : List Value := [.text "*", .text "a", .list [rule.toValue, .list []]]
    let chunks : List Chunk := [.list [.text "*a", .list [.text ""]], .node wrapped]
    let chunks' : List Chunk := [.text "*", .text "a", .list [.node rule, .list []]]
    SetsNoFlags (twoListsEngine {}) ∧
      Chunk.ofValues vs = .ok chunks ∧ Chunk.ofValues vs' = .ok chunks' ∧
      Chunk.content chunks = Chunk.content chunks' ∧
      ∃ s, (ingestAll (twoListsEngine {}) .empty vs).outcome = .ok s ∧
        (ingestAll (twoListsEngine {}) .empty vs').outcome = .ok s := by
  intro rule wrapped vs vs' chunks chunks'
  have hvalid : Chunk.ofValues vs = .ok chunks := by cbv
  have hvalid' : Chunk.ofValues vs' = .ok chunks' := by cbv
  have hcontent : Chunk.content chunks = Chunk.content chunks' := by cbv
  obtain ⟨s, hs⟩ : ∃ s, (ingestAll (twoListsEngine {}) .empty vs).outcome = .ok s := ⟨_, by cbv⟩
  obtain ⟨s', hs'⟩ : ∃ s, (ingestAll (twoListsEngine {}) .empty vs').outcome = .ok s := ⟨_, by cbv⟩
  have heq : s = s' :=
    ingestAll_determined_by_content (setsNoFlags_twoListsEngine {}) hvalid hvalid' hcontent hs hs'
  exact ⟨setsNoFlags_twoListsEngine {}, hvalid, hvalid', hcontent, s, hs, heq ▸ hs'⟩

end Session

end LiveMarkdown
