import LiveMarkdown.Proofs.Node.Preorder
import LiveMarkdown.Proofs.Stream.Replay

/-!
# Reachable sessions

A session arises from the empty one by taking in chunks, one after the other. What holds of all
sessions that can arise is shown step by step: nested lists and documents in the chunks are taken
apart first, so that a step takes in one text or one node that is no document.

## Main definitions

* `Session.Reachable`: the sessions that arise from chunks whose nodes are of an allowed sort.
* `Session.Holds`: a property of the documents of a session and of the nodes that it has read.

## Main results

* `Session.Reachable.invariant`: what every step keeps holds in all reachable sessions.
* `Session.ingestText_cases`: all that taking in text does.
* `Session.Reachable.ingestAll`: taking in values leads to reachable sessions.
* `Session.Holds.ingestText`, `Session.Holds.ingestSingle`: what one step keeps.
-/

namespace LiveMarkdown

variable {engine : String → Except Fault (List Node)} {allowed : Node → Prop}

namespace Node

mutual

/-- The nodes that a node counts as are nodes of its tree. -/
theorem mem_preorder_of_mem_withoutDocuments : {n m : Node} → m ∈ n.withoutDocuments →
    ∀ {k : Node}, k ∈ m.preorder → k ∈ n.preorder
  | leaf f l, m, h, k, hk => by
    obtain rfl : m = leaf f l := by simpa [withoutDocuments] using h
    exact hk
  | branch f c children, m, h, k, hk => by
    rw [withoutDocuments] at h
    split at h
    · rw [preorder]
      exact List.mem_cons_of_mem _ (mem_preorderList_of_mem_withoutDocumentsList h hk)
    · obtain rfl : m = branch f c children := List.mem_singleton.mp h
      exact hk

/-- The nodes that siblings count as are nodes of their trees. -/
theorem mem_preorderList_of_mem_withoutDocumentsList : {ns : List Node} → {m : Node} →
    m ∈ withoutDocumentsList ns → ∀ {k : Node}, k ∈ m.preorder → k ∈ preorderList ns
  | [], m, h, k, _ => by simp [withoutDocumentsList] at h
  | n :: ns, m, h, k, hk => by
    rw [withoutDocumentsList, List.mem_append] at h
    rw [preorderList, List.mem_append]
    rcases h with h | h
    · exact Or.inl (mem_preorder_of_mem_withoutDocuments h hk)
    · exact Or.inr (mem_preorderList_of_mem_withoutDocumentsList h hk)

end

end Node

/-- A node among expanded pieces is part of a node among the pieces. -/
theorem Piece.exists_of_node_mem_expanded {ps : List Piece} {n : Node}
    (h : .node n ∈ ps.flatMap Piece.expanded) :
    ∃ k, .node k ∈ ps ∧ ∀ m ∈ n.preorder, m ∈ k.preorder := by
  obtain ⟨piece, hpiece, hn⟩ := List.mem_flatMap.mp h
  cases piece with
  | text t => simp [Piece.expanded] at hn
  | node k =>
    obtain ⟨n', hn', heq⟩ := List.mem_map.mp hn
    obtain rfl := Piece.node.inj heq
    exact ⟨k, hpiece, fun m hm => Node.mem_preorder_of_mem_withoutDocuments hn' hm⟩

namespace Session

/-- The sessions that arise from the empty one by taking in chunks. Every node in the chunks, with
all that is below it, consists of nodes of an allowed sort. -/
inductive Reachable (engine : String → Except Fault (List Node)) (allowed : Node → Prop) :
    Session → Prop
  | empty : Reachable engine allowed .empty
  | ingest {s s' : Session} {chunk : Chunk} (h : Reachable engine allowed s)
      (hallowed : ∀ n, .node n ∈ chunk.pieces → ∀ m ∈ n.preorder, allowed m)
      (hstep : (s.ingest engine chunk).outcome = .ok s') : Reachable engine allowed s'

/-- What every text and every node that is taken in keeps holds in all reachable sessions. -/
theorem Reachable.invariant {inv : Session → Prop} (hempty : inv .empty)
    (htext : ∀ {s s' t}, inv s → (s.ingestText engine t).outcome = .ok s' → inv s')
    (hnode : ∀ {s s' n}, inv s → (∀ m ∈ n.preorder, allowed m) →
      (s.ingestSingle n).outcome = .ok s' →
      inv s') {s : Session} (h : s.Reachable engine allowed) : inv s := by
  induction h with
  | empty => exact hempty
  | @ingest s s' chunk _ hallowed hstep ih =>
    rw [ingest_eq_foldlM_ingestPlain] at hstep
    -- Only pieces that the chunk holds are taken in.
    let isPiece (p : Piece) : Prop := ∀ n, p = .node n → ∀ m ∈ n.preorder, allowed m
    have hpieces : ∀ p ∈ chunk.pieces.flatMap Piece.expanded, isPiece p := by
      rintro p hp n rfl m hm
      obtain ⟨k, hk, hbelow⟩ := Piece.exists_of_node_mem_expanded hp
      exact hallowed k hk m (hbelow m hm)
    have hpiece : ∀ done b p b', ((∀ q ∈ done, isPiece q) → inv b) →
        (ingestPlain engine b p).outcome = .ok b' → (∀ q ∈ done ++ [p], isPiece q) → inv b' := by
      intro done b p b' hb hp hall
      obtain ⟨hdone, hlast⟩ := List.forall_mem_append.mp hall
      cases p with
      | text t => exact htext (hb hdone) hp
      | node n => exact hnode (hb hdone) (hlast _ List.mem_cons_self n rfl) hp
    exact Reported.foldlM_invariant hpiece _ [] s s' (fun _ => ih) hstep hpieces

/-- Values that are taken in one after the other lead from a reachable session to reachable
sessions. -/
theorem Reachable.ingestAll {s s' : Session} {vs : List Value} {chunks : List Chunk}
    (h : s.Reachable engine allowed) (hvalid : Chunk.ofValues vs = .ok chunks)
    (hallowed : ∀ n, .node n ∈ Chunk.piecesList chunks → ∀ m ∈ n.preorder, allowed m)
    (hstep : (s.ingestAll engine vs).outcome = .ok s') : s'.Reachable engine allowed := by
  induction vs generalizing s chunks with
  | nil =>
    obtain rfl : s = s' := by simpa [Session.ingestAll] using hstep
    exact h
  | cons v vs ih =>
    obtain ⟨c, cs, hv, hvs, rfl⟩ := Chunk.exists_of_ofValues_cons hvalid
    simp only [Chunk.piecesList, List.mem_append, or_imp, forall_and] at hallowed
    rw [Session.ingestAll, List.foldlM_cons, Reported.outcome_bind_eq_ok_iff] at hstep
    obtain ⟨t, ht, hstep⟩ := hstep
    rw [ingestValue, hv] at ht
    exact ih (h.ingest hallowed.1 ht) hvs hallowed.2 hstep

/-- All that taking in text does. Without text an open run stays as it is. Else the run is read
anew, where the nodes of its earlier reading, if there was one, may be kept. -/
theorem ingestText_cases {s s' : Session} {t : String}
    (h : (s.ingestText engine t).outcome = .ok s') :
    s' = s ∨ ∃ earlier run previous parsed,
      earlier ⊆ s.segments ∧ (previous = [] ∨ ∃ text, .text text previous ∈ s.segments) ∧
        engine (completeFragment run) = .ok parsed ∧
        s' = { segments :=
                 earlier ++ [.text run (reconcile previous parsed (completionSuffix run != "")).1]
               base := s.base
               document :=
                 (follow s.base
                   (reconcile previous parsed (completionSuffix run != "")).1).1 } := by
  rcases ingestText_eq_ok_cases h with
    ⟨-, hrun⟩ | ⟨earlier, n, -, hrun⟩ | ⟨earlier, run, nodes, hconcat, ⟨-, rfl⟩ | hrun⟩
  · obtain ⟨parsed, hparsed, hs'⟩ := outcome_readRun_eq_ok_iff.mp hrun
    exact Or.inr ⟨_, _, [], parsed, List.nil_subset _, Or.inl rfl, hparsed, hs'⟩
  · obtain ⟨parsed, hparsed, hs'⟩ := outcome_readRun_eq_ok_iff.mp hrun
    exact Or.inr ⟨_, _, [], parsed, List.Subset.refl _, Or.inl rfl, hparsed, hs'⟩
  · exact Or.inl rfl
  · obtain ⟨parsed, hparsed, hs'⟩ := outcome_readRun_eq_ok_iff.mp hrun
    have hlast : .text run nodes ∈ s.segments :=
      hconcat ▸ List.mem_append_right _ (List.mem_singleton_self _)
    exact Or.inr ⟨_, _, nodes, parsed, hconcat ▸ List.subset_append_left _ _, Or.inr ⟨run, hlast⟩,
      hparsed, hs'⟩

/-- The documents of a session have a property, and the nodes of the readings that it keeps have
one. -/
structure Holds (document : Document → Prop) (read : Node → Prop) (s : Session) : Prop where
  base : document s.base
  document : document s.document
  readings : ∀ {text nodes}, .text text nodes ∈ s.segments → ∀ n ∈ nodes, read n

namespace Holds

variable {document : Document → Prop} {read : Node → Prop} {s s' : Session}

theorem empty (h : document .empty) : Session.empty.Holds document read :=
  ⟨h, h, by simp [Session.empty]⟩

/-- Text that is taken in keeps what does not depend on flags, if the engine reads such nodes and
documents keep it when such nodes follow them. -/
theorem ingestText {t : String} (hs : s.Holds document read)
    (hengine : ∀ text nodes, engine text = .ok nodes → ∀ n ∈ nodes, read n)
    (hflags : ∀ f n, read n → read (n.withFlags f))
    (hfollow : ∀ {nodes}, (∀ n ∈ nodes, read n) → document (follow s.base nodes).1)
    (h : (s.ingestText engine t).outcome = .ok s') : s'.Holds document read := by
  rcases ingestText_cases h with
    rfl | ⟨earlier, run, previous, parsed, hearlier, hprevious, hparsed, rfl⟩
  · exact hs
  · have hnodes : ∀ n ∈ (reconcile previous parsed (completionSuffix run != "")).1, read n := by
      refine forall_mem_reconcile hflags ?_ (hengine _ _ hparsed)
      rcases hprevious with rfl | ⟨text, hmem⟩
      · simp
      · exact hs.readings hmem
    refine ⟨hs.base, hfollow hnodes, fun {text nodes} hmem => ?_⟩
    rcases List.mem_append.mp hmem with hmem | hmem
    · exact hs.readings (hearlier hmem)
    · obtain ⟨rfl, rfl⟩ := Segment.text.inj (List.mem_singleton.mp hmem)
      exact hnodes

/-- A node that is taken in keeps what the document with the node has. -/
theorem ingestSingle {n : Node} (hs : s.Holds document read)
    (hgrown : document (s.document.append n).1) (h : (s.ingestSingle n).outcome = .ok s') :
    s'.Holds document read := by
  obtain rfl := eq_of_ingestSingle h
  refine ⟨hgrown, hgrown, fun {text nodes} hmem => ?_⟩
  exact hs.readings (by simpa using hmem)

end Holds

end Session

end LiveMarkdown
