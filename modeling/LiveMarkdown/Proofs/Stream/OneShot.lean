import LiveMarkdown.Proofs.Stream.Replay

/-!
# Streaming and reading in one go

A text can be read in one go, or it can arrive in pieces and be read again and again. For an engine
that returns blocks without flags both give the same document: all blocks of the last reading follow
the empty document as they are, so that neighbouring lists or tables that the engine kept apart stay
apart. The one difference is the mark on the last block, which tells that completion has added
closers to the text.

## Main definitions

* `ReturnsPlainBlocks`: the engine returns blocks without flags.

## Main results

* `Session.exists_ingestAll_texts`: a stream of text succeeds as long as the engine does.
* `Session.ingestAll_texts_agrees_with_parseDocument`: the two documents compared.
-/

namespace LiveMarkdown

variable {engine : String → Except Fault (List Node)}

/-- The engine returns blocks without flags. -/
def ReturnsPlainBlocks (engine : String → Except Fault (List Node)) : Prop :=
  ∀ text nodes, engine text = .ok nodes → ∀ n ∈ nodes, n.kind.category = .block ∧ n.Unflagged

theorem ReturnsPlainBlocks.setsNoFlags (h : ReturnsPlainBlocks engine) : SetsNoFlags engine :=
  fun text nodes hnodes n hn => (h text nodes hnodes n hn).2

theorem kind_of_mem_markLast {parsed : List Node} {k : NodeCategory}
    (h : ∀ n ∈ parsed, n.kind.category = k) : ∀ n ∈ markLast parsed, n.kind.category = k := by
  fun_induction markLast parsed with
  | case1 => simp
  | case2 m =>
    intro n hn
    obtain rfl := List.mem_singleton.mp hn
    rw [Node.addFlags, Node.kind_withFlags]
    exact h m List.mem_cons_self
  | case3 m m' ms ih =>
    intro n hn
    rcases List.mem_cons.mp hn with rfl | hn
    · exact h n List.mem_cons_self
    · exact ih (fun x hx => h x (List.mem_cons_of_mem m hx)) n hn

theorem kind_of_mem_markedReading {speculative : Bool} {parsed : List Node} {k : NodeCategory}
    (h : ∀ n ∈ parsed, n.kind.category = k) :
    ∀ n ∈ markedReading speculative parsed, n.kind.category = k := by
  cases speculative with
  | false => exact h
  | true => exact kind_of_mem_markLast h

/-- The last node of a marked reading carries the mark exactly when there is one to carry. -/
theorem hasFlag_of_getLast?_markedReading {speculative : Bool} {parsed : List Node}
    (h : ∀ n ∈ parsed, n.Unflagged) {n : Node}
    (hn : (markedReading speculative parsed).getLast? = some n) :
    n.hasFlag .speculative = speculative := by
  cases speculative with
  | false => exact (h n (List.mem_of_getLast? hn)).hasFlag_speculative
  | true =>
    replace hn : (markLast parsed).getLast? = some n := hn
    fun_induction markLast parsed with
    | case1 => simp at hn
    | case2 m =>
      obtain rfl : m.addFlags .speculative = n := by simpa using hn
      exact (h m List.mem_cons_self).hasFlag_speculative_addFlags
    | case3 m m' ms ih =>
      refine ih (fun x hx => h x (List.mem_cons_of_mem m hx)) ?_
      have hne : markLast (m' :: ms) ≠ [] := by
        intro hnil
        have := length_markLast (m' :: ms)
        simp [hnil] at this
      rwa [List.getLast?_cons_of_ne_nil hne] at hn

namespace Session

/-- Blocks follow an empty document as they are. -/
theorem follow_empty {nodes : List Node} (h : ∀ n ∈ nodes, n.kind.category = .block) :
    (follow .empty nodes).1 = .ofNodes nodes := by
  cases nodes with
  | nil => rfl
  | cons first rest =>
    have hfirst : first.kind.category = .block := h first List.mem_cons_self
    have hfits : Container.document.fits first = true := by
      simp [Container.fits, Container.kind, NodeKind.accepts, NodeKind.contentModel, hfirst]
    have happend : Document.append .empty first = (⟨.none, [first]⟩, []) := by
      rw [Document.append, Document.place?, if_pos hfits]
      rfl
    rw [follow, happend]
    rfl

/-- Text is taken in if the engine reads the completed run. -/
theorem exists_ingestText_eq_ok {s : Session} {pre : List String} {t : String}
    (hs : IsReplay engine (pre.map .text) s)
    (h : ∃ parsed, engine (completeFragment (String.join (pre ++ [t]))) = .ok parsed) :
    ∃ s', (s.ingestText engine t).outcome = .ok s' := by
  obtain ⟨parsed, hparsed⟩ := h
  rw [String.join_append, String.join_cons, String.join_nil, String.append_empty] at hparsed
  by_cases hpre : pre = []
  · subst hpre
    have hnil : s.segments = [] := List.map_eq_nil_iff.mp hs.pieces_eq
    rw [Session.ingestText, hnil]
    exact ⟨_, outcome_readRun_eq_ok_iff.mpr ⟨parsed, by simpa [String.join] using hparsed, rfl⟩⟩
  · have hpieces := hs.pieces_eq
    rw [joinTexts_map_text hpre, List.map_eq_singleton_iff] at hpieces
    obtain ⟨segment, hsegment, hpiece⟩ := hpieces
    cases segment with
    | node n => cases hpiece
    | text run nodes =>
      obtain rfl : run = String.join pre := Piece.text.inj hpiece
      rw [Session.ingestText, hsegment]
      by_cases ht : t.isEmpty = true
      · exact ⟨s, by simp [ht, Reported.pure]⟩
      · simp only [List.getLast?_singleton, if_neg ht]
        exact ⟨_, outcome_readRun_eq_ok_iff.mpr ⟨parsed, hparsed, rfl⟩⟩

/-- A stream of text succeeds as long as the engine reads what has arrived, and is a replay then. -/
theorem exists_ingestAll_texts (hengine : SetsNoFlags engine) {texts : List String}
    (h : ∀ k, 0 < k → k ≤ texts.length →
      ∃ nodes, engine (completeFragment (String.join (texts.take k))) = .ok nodes) :
    ∃ s, (ingestAll engine .empty (texts.map .text)).outcome = .ok s ∧
      IsReplay engine (texts.map .text) s := by
  rw [ingestAll_eq_foldlM_ingestPlain engine (Chunk.ofValues_map_text texts),
    Chunk.flatMap_expanded_piecesList_map_text, List.foldlM_map]
  refine Reported.exists_foldlM_eq_ok (fun done s => IsReplay engine (done.map .text) s)
    ?_ texts [] .empty isReplay_empty ?_
  · intro done s t hs s' hstep
    rw [List.map_append]
    exact hs.ingestText hengine hstep
  · intro pre t post s hsplit hs
    refine exists_ingestText_eq_ok hs ?_
    have htake : texts.take (pre.length + 1) = pre ++ [t] := by
      simp [hsplit, List.take_append, List.take_of_length_le]
    have key := h (pre.length + 1) (Nat.succ_pos _) (by simp [hsplit])
    rwa [htake] at key

/-- Text that arrives in pieces gives the document that it gives when it is completed and read in
one go, but for the mark on the last block, which tells that completion has added closers. -/
theorem ingestAll_texts_agrees_with_parseDocument {engine : Engine} {options : EngineOptions}
    (hblocks : ReturnsPlainBlocks (engine options)) {texts : List String} (hne : texts ≠ [])
    (hreads : ∀ k, 0 < k → k ≤ texts.length →
      ∃ nodes, engine options (completeFragment (String.join (texts.take k))) = .ok nodes) :
    ∃ s d, (ingestAll (engine options) .empty (texts.map .text)).outcome = .ok s ∧
      parseDocument engine options true (String.join texts) = .ok d ∧
      s.document =
        { d with
          children := markedReading (completionSuffix (String.join texts) != "") d.children } ∧
      ∀ n, s.document.children.getLast? = some n →
        (n.hasFlag .speculative = true ↔ completionSuffix (String.join texts) ≠ "") := by
  obtain ⟨s, hs, hreplay⟩ := exists_ingestAll_texts hblocks.setsNoFlags hreads
  have hpieces := hreplay.pieces_eq
  rw [joinTexts_map_text hne, List.map_eq_singleton_iff] at hpieces
  obtain ⟨segment, hsegment, hpiece⟩ := hpieces
  have hread := hreplay.isRead segment (by simp [hsegment])
  cases segment with
  | node n => cases hpiece
  | text run nodes =>
    obtain rfl : run = String.join texts := Piece.text.inj hpiece
    obtain ⟨parsed, hparsed, rfl⟩ := hread
    have hplain := hblocks _ _ hparsed
    have hdocument : s.document =
        .ofNodes (markedReading (completionSuffix (String.join texts) != "") parsed) := by
      rw [hreplay.document_eq, hsegment]
      exact follow_empty (kind_of_mem_markedReading fun n hn => (hplain n hn).1)
    refine ⟨s, .ofNodes parsed, hs, ?_, hdocument, ?_⟩
    · rw [parseDocument, if_pos rfl, hparsed]
      rfl
    · intro n hn
      rw [hdocument] at hn
      rw [hasFlag_of_getLast?_markedReading (fun m hm => (hplain m hm).2) hn, bne_iff_ne]

theorem returnsPlainBlocks_twoListsEngine (options : EngineOptions) :
    ReturnsPlainBlocks (twoListsEngine options) := by
  intro text nodes hnodes n hn
  refine ⟨?_, setsNoFlags_twoListsEngine options text nodes hnodes n hn⟩
  obtain rfl := Except.ok.inj hnodes
  rcases List.mem_cons.mp hn with rfl | hn
  · rfl
  · obtain rfl := List.mem_singleton.mp hn
    rfl

/-- Two lists that the engine keeps apart stay apart, although lists of one type would join. -/
theorem ingestAll_two_lists_stay_apart :
    ReturnsPlainBlocks (twoListsEngine {}) ∧ ["- *a", "", "b"] ≠ [] ∧
      (∀ k, 0 < k → k ≤ ["- *a", "", "b"].length →
        ∃ nodes, twoListsEngine {} (completeFragment (String.join (["- *a", "", "b"].take k))) =
          .ok nodes) ∧
      ∃ s, (ingestAll (twoListsEngine {}) .empty [.text "- *a", .text "", .text "b"]).outcome =
        .ok s ∧ s.document.children =
          [Node.list {} [Node.listItem {} [Node.paragraph [Node.text "- *ab*"]]],
            (Node.list {} [Node.listItem {} []]).addFlags .speculative] := by
  have hblocks := returnsPlainBlocks_twoListsEngine {}
  have hreads : ∀ k, 0 < k → k ≤ ["- *a", "", "b"].length →
      ∃ nodes, twoListsEngine {} (completeFragment (String.join (["- *a", "", "b"].take k))) =
        .ok nodes := fun _ _ _ => ⟨_, rfl⟩
  have hne : ["- *a", "", "b"] ≠ [] := by simp
  obtain ⟨s, d, hs, hd, hdocument, -⟩ :=
    ingestAll_texts_agrees_with_parseDocument hblocks hne hreads
  have honeShot : parseDocument twoListsEngine {} true (String.join ["- *a", "", "b"]) =
      .ok (.ofNodes [Node.list {} [Node.listItem {} [Node.paragraph [Node.text "- *ab*"]]],
        Node.list {} [Node.listItem {} []]]) := by cbv
  obtain rfl := Except.ok.inj (honeShot.symm.trans hd)
  refine ⟨hblocks, hne, hreads, s, hs, ?_⟩
  rw [hdocument]
  cbv

end Session

end LiveMarkdown
