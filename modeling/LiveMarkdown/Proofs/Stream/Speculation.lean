import LiveMarkdown.Proofs.Graft.Marks
import LiveMarkdown.Proofs.Stream.Reachable

/-!
# Speculative nodes in a stream

The last node of a run is marked as speculative while completion adds closers to the run. The mark
is put on when the run is read, and it is not taken off when a node ends the run: a run that was
left incomplete keeps its mark in the document for good. And a run that is read into a single node
has nothing to show its mark on if this node joins the container before it, which keeps the flags
that it had. These two are all that keeps the marks of a document from telling exactly whether its
end is speculative.

## Main definitions

* `Segment.Speculates`: completion adds closers to the run, and it is read into something.
* `Segment.JoinsAlone`: the run is read into one node, which joins the document before it.
* `Session.MarksExactly`: the document bears a mark exactly while an open run speculates.

## Main results

* `bearsMark_documentOf_iff`: which runs leave a mark in the document.
* `Session.marksExactly_iff`: when the marks of a session are exact.
* `Session.marksExactly_of_texts`: they are exact as long as nothing but text has arrived.
-/

namespace LiveMarkdown

variable {engine : String → Except Fault (List Node)}

/-- The segment is a run that completion adds closers to, and that is read into something. -/
def Segment.Speculates (engine : String → Except Fault (List Node)) : Segment → Prop
  | .text t _ =>
    completionSuffix t ≠ "" ∧ ∃ parsed, engine (completeFragment t) = .ok parsed ∧ parsed ≠ []
  | .node _ => False

/-- The segment is a run that has been read into one node, and this node joins the last child of the
document before it. -/
def Segment.JoinsAlone (d : Document) : Segment → Prop
  | .text _ nodes => ∃ n, nodes = [n] ∧ d.joinedLast? n ≠ none
  | .node _ => False

/-- A list with one more entry is cut before an entry of the list, or before the new one. -/
theorem exists_prefix_concat_iff {α : Type} {p : List α → α → Prop} {xs : List α} {y : α} :
    (∃ before x, before ++ [x] <+: xs ++ [y] ∧ p before x) ↔
      (∃ before x, before ++ [x] <+: xs ∧ p before x) ∨ p xs y := by
  simp only [List.prefix_concat_iff, or_and_right, exists_or]
  rw [or_comm]
  refine or_congr_right ⟨?_, fun h => ⟨xs, y, rfl, h⟩⟩
  rintro ⟨before, x, heq, h⟩
  obtain ⟨rfl, hx⟩ := List.append_inj' heq rfl
  obtain rfl := List.singleton_inj.mp hx
  exact h

/-! ### What one segment leaves -/

theorem not_exists_bearsMark {ns : List Node} (h : ∀ n ∈ ns, n.Unflagged) :
    ¬ ∃ n ∈ ns, n.BearsMark := by
  rintro ⟨n, hn, hmark⟩
  exact (h n hn).not_bearsMark hmark

theorem Document.bearsMark_append_of_unflagged {n : Node} (hn : n.Unflagged) (d : Document) :
    (d.append n).1.toNode.BearsMark ↔ d.toNode.BearsMark := by
  have hchildren : ¬ ∃ k ∈ n.children, k.BearsMark :=
    not_exists_bearsMark fun k hk => hn.of_mem_children hk
  rw [Document.bearsMark_append]
  split <;> simp [hn.not_bearsMark, hchildren]

/-- A node that is marked leaves its mark, unless it joins the last child of the document. -/
theorem Document.bearsMark_append_addFlags {n : Node} (hn : n.Unflagged) (d : Document) :
    (d.append (n.addFlags .speculative)).1.toNode.BearsMark ↔
      d.toNode.BearsMark ∨ d.joinedLast? (n.addFlags .speculative) = none := by
  have hchildren : ¬ ∃ k ∈ (n.addFlags .speculative).children, k.BearsMark := by
    rw [Node.addFlags, Node.children_withFlags]
    exact not_exists_bearsMark fun k hk => hn.of_mem_children hk
  rw [Document.bearsMark_append]
  split <;> simp [*, hn.bearsMark_addFlags]

theorem exists_bearsMark_markLast {parsed : List Node} (hparsed : ∀ n ∈ parsed, n.Unflagged)
    (hne : parsed ≠ []) : ∃ n ∈ markLast parsed, n.BearsMark := by
  fun_induction markLast parsed with
  | case1 => exact absurd rfl hne
  | case2 n =>
    exact ⟨_, List.mem_singleton_self _, (hparsed n List.mem_cons_self).bearsMark_addFlags⟩
  | case3 n m ns ih =>
    obtain ⟨k, hk, hmark⟩ :=
      ih (fun x hx => hparsed x (List.mem_cons_of_mem n hx)) (List.cons_ne_nil m ns)
    exact ⟨k, List.mem_cons_of_mem n hk, hmark⟩

/-- A reading leaves a mark if it was completed and is not empty, unless it is one node that
joins. -/
theorem bearsMark_follow_markedReading {parsed : List Node} (hparsed : ∀ n ∈ parsed, n.Unflagged)
    (d : Document) (speculative : Bool) :
    (Session.follow d (markedReading speculative parsed)).1.toNode.BearsMark ↔
      d.toNode.BearsMark ∨ ((speculative = true ∧ parsed ≠ []) ∧
        ¬ ∃ n, markedReading speculative parsed = [n] ∧ d.joinedLast? n ≠ none) := by
  cases parsed with
  | nil => cases speculative <;> simp [markedReading, markLast, Session.follow]
  | cons first rest =>
    obtain ⟨hfirst, hrest⟩ := List.forall_mem_cons.mp hparsed
    have hfollow : ∀ f ns, (Session.follow d (f :: ns)).1.toNode.BearsMark ↔
        (d.append f).1.toNode.BearsMark ∨ ∃ n ∈ ns, n.BearsMark :=
      fun f ns => (d.append f).1.bearsMark_concat ns
    cases speculative with
    | false =>
      have hunmarked : ¬ ∃ n ∈ rest, n.BearsMark := not_exists_bearsMark hrest
      simp [markedReading, hfollow, Document.bearsMark_append_of_unflagged hfirst, hunmarked]
    | true =>
      cases rest with
      | nil => simp [markedReading, markLast, hfollow, Document.bearsMark_append_addFlags hfirst]
      -- The mark is on a later node, which is not grafted.
      | cons second rest =>
        have hmarked := exists_bearsMark_markLast hrest (List.cons_ne_nil second rest)
        have htwo : ∀ n, first :: markLast (second :: rest) ≠ [n] := by
          intro n hn
          have := congrArg List.length hn
          simp [length_markLast] at this
        simp [markedReading, markLast, hfollow, hmarked, htwo]

theorem Segment.speculates_text_iff {t : String} {nodes parsed : List Node}
    (hparsed : engine (completeFragment t) = .ok parsed) :
    (Segment.text t nodes).Speculates engine ↔ (completionSuffix t != "") = true ∧ parsed ≠ [] := by
  simp [Segment.Speculates, hparsed]

/-- What a run leaves: its own mark if it speculates, unless it is one node that joins. -/
theorem bearsMark_follow_of_isRead (hengine : SetsNoFlags engine) {t : String} {nodes : List Node}
    (hread : (Segment.text t nodes).IsRead engine) (d : Document) :
    (Session.follow d nodes).1.toNode.BearsMark ↔
      d.toNode.BearsMark ∨
        ((Segment.text t nodes).Speculates engine ∧ ¬ (Segment.text t nodes).JoinsAlone d) := by
  obtain ⟨parsed, hparsed, rfl⟩ := hread
  rw [bearsMark_follow_markedReading (hengine _ _ hparsed), Segment.speculates_text_iff hparsed]
  rfl

/-! ### What all segments leave -/

/-- The document bears a mark exactly if one of the runs that speculate has left it. The induction
goes from the last segment back. -/
theorem bearsMark_documentOf_iff (hengine : SetsNoFlags engine) {segments : List Segment}
    (hread : ∀ segment ∈ segments, segment.IsRead engine)
    (hnodes : ∀ n, .node n ∈ segments → n.Unflagged) :
    (documentOf segments).toNode.BearsMark ↔
      ∃ before run, before ++ [run] <+: segments ∧ run.Speculates engine ∧
        ¬ run.JoinsAlone (documentOf before) := by
  induction segments using List.reverseRecOn with
  | nil =>
    have hempty : ¬ (documentOf []).toNode.BearsMark := by decide
    simp [hempty]
  | append_singleton segments segment ih =>
    rw [List.forall_mem_append, List.forall_mem_singleton] at hread
    rw [exists_prefix_concat_iff,
      ← ih hread.1 fun n hn => hnodes n (List.mem_append_left [segment] hn)]
    cases segment with
    | text t nodes => rw [documentOf_concat_text, bearsMark_follow_of_isRead hengine hread.2]
    | node n =>
      rw [documentOf_concat_node, Document.bearsMark_append_of_unflagged (hnodes n (by simp)),
        Segment.Speculates, false_and, or_false]

namespace Session

/-- The session is a replay, and the nodes that have arrived carry no flags. -/
structure IsPlainReplay (engine : String → Except Fault (List Node)) (s : Session) : Prop where
  isReplay : ∃ pieces, IsReplay engine pieces s
  unflagged : ∀ n, .node n ∈ s.segments → n.Unflagged

variable {s s' : Session}

theorem isPlainReplay_empty : Session.empty.IsPlainReplay engine :=
  ⟨⟨[], isReplay_empty⟩, by simp [Session.empty]⟩

theorem IsPlainReplay.ingestText (hengine : SetsNoFlags engine) {t : String}
    (hs : s.IsPlainReplay engine) (h : (s.ingestText engine t).outcome = .ok s') :
    s'.IsPlainReplay engine := by
  obtain ⟨pieces, hreplay⟩ := hs.isReplay
  refine ⟨⟨_, hreplay.ingestText hengine h⟩, ?_⟩
  rcases ingestText_cases h with rfl | ⟨earlier, run, previous, parsed, hearlier, -, -, rfl⟩
  · exact hs.unflagged
  · exact fun n hn => hs.unflagged n (hearlier (by simpa using hn))

theorem IsPlainReplay.ingestSingle {n : Node} (hs : s.IsPlainReplay engine) (hn : n.Unflagged)
    (h : (s.ingestSingle n).outcome = .ok s') : s'.IsPlainReplay engine := by
  obtain ⟨pieces, hreplay⟩ := hs.isReplay
  refine ⟨⟨_, hreplay.ingestSingle h⟩, ?_⟩
  obtain rfl := eq_of_ingestSingle h
  intro m hm
  rcases List.mem_append.mp hm with hm | hm
  · exact hs.unflagged m hm
  · obtain rfl := Segment.node.inj (List.mem_singleton.mp hm)
    exact hn

theorem Reachable.isPlainReplay (hengine : SetsNoFlags engine)
    (h : s.Reachable engine fun m => m.flags = .none) : s.IsPlainReplay engine :=
  h.invariant isPlainReplay_empty (fun hs hstep => hs.ingestText hengine hstep)
    fun {_ _ n} hs hn hstep => hs.ingestSingle (n.unflagged_iff.mpr hn) hstep

/-! ### When the marks are exact -/

/-- The last segment is an open run that speculates. -/
def OpenRunSpeculates (engine : String → Except Fault (List Node)) (s : Session) : Prop :=
  ∃ run, s.segments.getLast? = some run ∧ run.Speculates engine

/-- The marks are exact: what precedes the open run bears none, and the document bears one exactly
while the open run speculates. -/
structure MarksExactly (engine : String → Except Fault (List Node)) (s : Session) : Prop where
  base_unmarked : ¬ s.base.toNode.BearsMark
  document_marked_iff : s.document.toNode.BearsMark ↔ s.OpenRunSpeculates engine

theorem IsPlainReplay.document_bearsMark_iff (hengine : SetsNoFlags engine)
    (hs : s.IsPlainReplay engine) :
    s.document.toNode.BearsMark ↔
      ∃ before run, before ++ [run] <+: s.segments ∧ run.Speculates engine ∧
        ¬ run.JoinsAlone (documentOf before) := by
  obtain ⟨pieces, hreplay⟩ := hs.isReplay
  rw [hreplay.document_eq]
  exact bearsMark_documentOf_iff hengine hreplay.isRead hs.unflagged

theorem sealedSegments_isInit (segments : List Segment) : sealedSegments segments <+: segments := by
  unfold sealedSegments
  split
  · exact List.dropLast_prefix segments
  · exact List.prefix_refl segments

theorem IsPlainReplay.base_bearsMark_iff (hengine : SetsNoFlags engine)
    (hs : s.IsPlainReplay engine) :
    s.base.toNode.BearsMark ↔
      ∃ before run, before ++ [run] <+: sealedSegments s.segments ∧ run.Speculates engine ∧
        ¬ run.JoinsAlone (documentOf before) := by
  obtain ⟨pieces, hreplay⟩ := hs.isReplay
  have hsubset := (sealedSegments_isInit s.segments).subset
  rw [hreplay.base_eq]
  exact bearsMark_documentOf_iff hengine (fun run hrun => hreplay.isRead run (hsubset hrun))
    fun n hn => hs.unflagged n (hsubset hn)

/-- The document bears the marks of what precedes the open run, and the one that the open run
leaves. -/
theorem IsPlainReplay.document_bearsMark_iff_base (hengine : SetsNoFlags engine)
    (hs : s.IsPlainReplay engine) :
    s.document.toNode.BearsMark ↔ s.base.toNode.BearsMark ∨
      ∃ run, s.segments.getLast? = some run ∧ run.Speculates engine ∧ ¬ run.JoinsAlone s.base := by
  obtain ⟨pieces, hreplay⟩ := hs.isReplay
  rcases List.eq_nil_or_concat s.segments with hnil | ⟨earlier, last, hconcat⟩
  · rw [hreplay.document_eq, hreplay.base_eq, hnil]
    simp [sealedSegments]
  · rw [List.concat_eq_append] at hconcat
    rw [hreplay.document_eq, hreplay.base_eq, hconcat]
    cases last with
    | node n => simp [sealedSegments_concat_node, Segment.Speculates]
    | text t nodes =>
      have hread := hreplay.isRead (.text t nodes) (by simp [hconcat])
      rw [sealedSegments_concat_text, documentOf_concat_text,
        bearsMark_follow_of_isRead hengine hread]
      simp

/-- The marks are exact as long as every sealed run that speculated has lost its mark, and the open
run has not. -/
theorem IsPlainReplay.marksExactly_iff (hengine : SetsNoFlags engine)
    (hs : s.IsPlainReplay engine) :
    s.MarksExactly engine ↔
      (∀ before run, before ++ [run] <+: sealedSegments s.segments → run.Speculates engine →
          run.JoinsAlone (documentOf before)) ∧
        ∀ run, s.segments.getLast? = some run → run.Speculates engine →
          ¬ run.JoinsAlone s.base := by
  have hbase := hs.base_bearsMark_iff hengine
  have hdocument := hs.document_bearsMark_iff_base hengine
  constructor
  · rintro ⟨hunmarked, hmarked⟩
    constructor
    · intro before run hrun hspeculates
      by_contra hjoins
      exact hunmarked (hbase.mpr ⟨before, run, hrun, hspeculates, hjoins⟩)
    · intro run hlast hspeculates
      obtain hmark | ⟨run', hlast', -, hjoins⟩ :=
        hdocument.mp (hmarked.mpr ⟨run, hlast, hspeculates⟩)
      · exact absurd hmark hunmarked
      · obtain rfl := Option.some.inj (hlast.symm.trans hlast')
        exact hjoins
  · rintro ⟨hsealed, hopen⟩
    have hunmarked : ¬ s.base.toNode.BearsMark := fun hmark => by
      obtain ⟨before, run, hrun, hspeculates, hjoins⟩ := hbase.mp hmark
      exact hjoins (hsealed before run hrun hspeculates)
    refine ⟨hunmarked, hdocument.trans ?_⟩
    constructor
    · rintro (hmark | ⟨run, hlast, hspeculates, -⟩)
      · exact absurd hmark hunmarked
      · exact ⟨run, hlast, hspeculates⟩
    · rintro ⟨run, hlast, hspeculates⟩
      exact Or.inr ⟨run, hlast, hspeculates, hopen run hlast hspeculates⟩

/-- While nothing but text has arrived, the marks are exact. -/
theorem marksExactly_of_texts (hengine : SetsNoFlags engine) {texts : List String}
    (h : (ingestAll engine .empty (texts.map .text)).outcome = .ok s) : s.MarksExactly engine := by
  have hreplay := isReplay_ingestAll hengine (Chunk.ofValues_map_text texts) h
  rw [Chunk.flatMap_expanded_piecesList_map_text] at hreplay
  have hsegments : s.segments = [] ∨ ∃ t nodes, s.segments = [.text t nodes] := by
    have hpieces := hreplay.pieces_eq
    by_cases htexts : texts = []
    · exact Or.inl (List.map_eq_nil_iff.mp (by rw [hpieces, htexts]; rfl))
    · rw [joinTexts_map_text htexts, List.map_eq_singleton_iff] at hpieces
      obtain ⟨segment, hsegment, hpiece⟩ := hpieces
      cases segment with
      | node n => cases hpiece
      | text t nodes => exact Or.inr ⟨t, nodes, hsegment⟩
  have hsealed : sealedSegments s.segments = [] := by
    rcases hsegments with hsegments | ⟨t, nodes, hsegments⟩ <;> rw [hsegments] <;> rfl
  have hplain : s.IsPlainReplay engine := by
    refine ⟨⟨_, hreplay⟩, fun n hn => ?_⟩
    rcases hsegments with hsegments | ⟨t, nodes, hsegments⟩ <;> simp [hsegments] at hn
  refine (hplain.marksExactly_iff hengine).mpr ⟨fun before run hrun => ?_, fun run _ _ hjoins => ?_⟩
  · simp [hsealed] at hrun
  -- The empty document has no child to join.
  · rw [hreplay.base_eq, hsealed] at hjoins
    cases run with
    | node n => exact hjoins
    | text t nodes =>
      obtain ⟨n, -, hjoined⟩ := hjoins
      exact hjoined rfl

/-- What the marks of a session tell. Every run that speculated when it was last read has left a
mark for good, unless it was read into one node that joined the document before it. So the marks are
exact as long as all sealed runs that speculated have lost their marks in this way, and the open run
has not. -/
theorem marks_tell_speculation (hengine : SetsNoFlags engine)
    (h : s.Reachable engine fun m => m.flags = .none) :
    (s.document.toNode.BearsMark ↔
        ∃ before run, before ++ [run] <+: s.segments ∧ run.Speculates engine ∧
          ¬ run.JoinsAlone (documentOf before)) ∧
      (s.MarksExactly engine ↔
        (∀ before run, before ++ [run] <+: sealedSegments s.segments → run.Speculates engine →
            run.JoinsAlone (documentOf before)) ∧
          ∀ run, s.segments.getLast? = some run → run.Speculates engine →
            ¬ run.JoinsAlone s.base) :=
  have hs := h.isPlainReplay hengine
  ⟨hs.document_bearsMark_iff hengine, hs.marksExactly_iff hengine⟩

/-- A list that arrives, and text that is read as two lists. The first joins the list that is there,
the second keeps its mark. -/
theorem marks_tell_speculation_behind_list :
    let list : Node := Node.list {} [Node.listItem {} []]
    ∃ s, (ingestAll (twoListsEngine {}) .empty [list.toValue, .text "*a"]).outcome = .ok s ∧
      SetsNoFlags (twoListsEngine {}) ∧ s.Reachable (twoListsEngine {}) (fun m => m.flags = .none) ∧
      s.document.children.length = 2 ∧ s.document.toNode.BearsMark ∧
      s.MarksExactly (twoListsEngine {}) := by
  intro list
  have hvalid : Chunk.ofValues [list.toValue, .text "*a"] = .ok [.node list, .text "*a"] := by cbv
  have hallowed : ∀ n, .node n ∈ Chunk.piecesList [.node list, .text "*a"] →
      ∀ m ∈ n.preorder, m.flags = .none := by
    simpa [Chunk.piecesList, Chunk.pieces] using (by decide : ∀ m ∈ list.preorder, m.flags = .none)
  obtain ⟨s, hs, htwo, hsegments⟩ :
      ∃ s, (ingestAll (twoListsEngine {}) .empty [list.toValue, .text "*a"]).outcome = .ok s ∧
        s.document.children.length = 2 ∧
        s.segments = [.node list, .text "*a" (markedReading true
          [Node.list {} [Node.listItem {} [Node.paragraph [Node.text "*a*"]]],
            Node.list {} [Node.listItem {} []]])] := ⟨_, by cbv, by cbv, by cbv⟩
  have hreachable := Reachable.empty.ingestAll hvalid hallowed hs
  have hengine := setsNoFlags_twoListsEngine {}
  obtain ⟨-, hexact⟩ := marks_tell_speculation hengine hreachable
  have hmarks : s.MarksExactly (twoListsEngine {}) := by
    refine hexact.mpr ⟨fun before run hrun hspeculates => ?_, fun run hrun _ hjoins => ?_⟩
    · have hmem : run ∈ sealedSegments s.segments := hrun.subset (by simp)
      obtain rfl : run = .node list := by simpa [hsegments, sealedSegments] using hmem
      exact absurd hspeculates id
    · obtain rfl := Option.some.inj (hrun.symm.trans (congrArg List.getLast? hsegments))
      obtain ⟨n, hn, -⟩ := hjoins
      exact absurd (congrArg List.length hn) (by simp [markedReading, length_markLast])
  have hspeculates : s.OpenRunSpeculates (twoListsEngine {}) :=
    ⟨_, congrArg List.getLast? hsegments, by cbv, _, rfl, by simp⟩
  exact ⟨s, hs, hengine, hreachable, htwo, hmarks.document_marked_iff.mpr hspeculates, hmarks⟩

theorem setsNoFlags_of_singleton {read : String → Node} (h : ∀ text, (read text).Unflagged) :
    SetsNoFlags fun text => .ok [read text] := by
  intro text nodes hnodes n hn
  obtain rfl := Except.ok.inj hnodes
  obtain rfl := List.mem_singleton.mp hn
  exact h text

/-- A paragraph that a thematic break ends stays marked as speculative, although no run is open any
more. A list that is read from an open run joins the list before it, and no node is marked although
the run speculates. -/
theorem not_marksExactly_of_sealed_or_joined :
    let paragraphs : String → Except Fault (List Node) :=
      fun text => .ok [Node.paragraph [Node.text text]]
    let lists : String → Except Fault (List Node) := fun text =>
      .ok [Node.list {} [Node.listItem {} [Node.paragraph [Node.text text]]]]
    let rule : Node := .leaf .none .thematicBreak
    let list : Node := Node.list {} [Node.listItem {} []]
    (∃ s, (ingestAll paragraphs .empty [.text "*a", rule.toValue]).outcome = .ok s ∧
      SetsNoFlags paragraphs ∧ s.Reachable paragraphs (fun m => m.flags = .none) ∧
      s.document.toNode.BearsMark ∧ ¬ s.OpenRunSpeculates paragraphs ∧
      ¬ s.MarksExactly paragraphs) ∧
    ∃ s, (ingestAll lists .empty [list.toValue, .text "*a"]).outcome = .ok s ∧
      SetsNoFlags lists ∧ s.Reachable lists (fun m => m.flags = .none) ∧
      ¬ s.document.toNode.BearsMark ∧ s.OpenRunSpeculates lists ∧ ¬ s.MarksExactly lists := by
  intro paragraphs lists rule list
  constructor
  · have hengine : SetsNoFlags paragraphs := setsNoFlags_of_singleton fun _ => rfl
    have hvalid : Chunk.ofValues [.text "*a", rule.toValue] = .ok [.text "*a", .node rule] := by cbv
    have hallowed : ∀ n, .node n ∈ Chunk.piecesList [.text "*a", .node rule] →
        ∀ m ∈ n.preorder, m.flags = .none := by
      simpa [Chunk.piecesList, Chunk.pieces] using
        (by decide : ∀ m ∈ rule.preorder, m.flags = .none)
    obtain ⟨s, hs, hlast, hchildren⟩ :
        ∃ s, (ingestAll paragraphs .empty [.text "*a", rule.toValue]).outcome = .ok s ∧
          s.segments.getLast? = some (.node rule) ∧
          s.document = .ofNodes [(Node.paragraph [Node.text "*a*"]).addFlags .speculative, rule] :=
      ⟨_, by cbv, by cbv, by cbv⟩
    have hmark : s.document.toNode.BearsMark := by
      rw [hchildren]
      decide
    have hclosed : ¬ s.OpenRunSpeculates paragraphs := by
      rintro ⟨run, hrun, hspeculates⟩
      obtain rfl := Option.some.inj (hlast.symm.trans hrun)
      exact hspeculates
    exact ⟨s, hs, hengine, Reachable.empty.ingestAll hvalid hallowed hs, hmark, hclosed,
      fun hexact => hclosed (hexact.document_marked_iff.mp hmark)⟩
  · have hengine : SetsNoFlags lists := setsNoFlags_of_singleton fun _ => rfl
    have hvalid : Chunk.ofValues [list.toValue, .text "*a"] = .ok [.node list, .text "*a"] := by cbv
    have hallowed : ∀ n, .node n ∈ Chunk.piecesList [.node list, .text "*a"] →
        ∀ m ∈ n.preorder, m.flags = .none := by
      simpa [Chunk.piecesList, Chunk.pieces] using
        (by decide : ∀ m ∈ list.preorder, m.flags = .none)
    obtain ⟨s, hs, hlast, hchildren⟩ :
        ∃ s, (ingestAll lists .empty [list.toValue, .text "*a"]).outcome = .ok s ∧
          (∃ nodes, s.segments.getLast? = some (.text "*a" nodes)) ∧
          s.document = .ofNodes
            [Node.list {} [Node.listItem {} [],
              Node.listItem {} [Node.paragraph [Node.text "*a*"]]]] :=
      ⟨_, by cbv, ⟨_, by cbv⟩, by cbv⟩
    have hunmarked : ¬ s.document.toNode.BearsMark := by
      rw [hchildren]
      decide
    obtain ⟨nodes, hlast⟩ := hlast
    have hspeculates : s.OpenRunSpeculates lists := ⟨_, hlast, by cbv, _, rfl, by simp⟩
    exact ⟨s, hs, hengine, Reachable.empty.ingestAll hvalid hallowed hs, hunmarked, hspeculates,
      fun hexact => hunmarked (hexact.document_marked_iff.mpr hspeculates)⟩

end Session

end LiveMarkdown
