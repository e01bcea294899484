import LiveMarkdown.Proofs.Graft.Placement
import LiveMarkdown.Proofs.Node.Links

/-!
# Grafting and the content model

Grafting changes which nodes are at hand only by adding links behind those that are there: the links
of the node, and one link for each place where something is put. The latter are sound, since a node
is put where it fits or among the children of the document. So grafting neither breaks the content
model nor repairs it, and a document is well-formed exactly if all that it has been built from is.

## Main results

* `Node.Grows.exists_links`, `Node.Joins.innerLinks_eq`, `Document.TakesIn.exists_links`: what one
  step adds to the links.
* `Document.exists_links_append`: what appending a node adds.
* `Document.wellFormed_append`: what a node has to be for a document to stay well-formed.
* `Document.append_keeps_contentModel`: violations and mixed items after any number of steps.
-/

namespace LiveMarkdown

/-! ### Sound links -/

theorem Container.kind_ne_document {c : Container} (hc : c ≠ .document) : c.kind ≠ .document := by
  cases c <;> simp [kind] at hc ⊢

theorem Container.listType?_refresh (c : Container) (children : List Node) :
    (c.refresh children).listType? = c.listType? := by
  cases c <;> rfl

/-- A node that fits a container makes a sound link with it. -/
theorem Container.isSound_of_fits {c : Container} {n : Node} (h : c.fits n = true) :
    Link.IsSound ⟨⟨c.kind, c.listType?⟩, n.profile⟩ := by
  obtain ⟨haccepts, htype⟩ := Bool.and_eq_true_iff.mp h
  refine ⟨?_, ?_⟩
  · simp [Link.violation?, n.kind_profile, haccepts]
  · cases c with
    | list a =>
      cases n with
      | leaf f l => cases l <;> rfl
      | branch f e ns => cases e <;> simp_all [Link.mixesItems, Node.profile, kind, listType?]
    | _ => rfl

/-! ### One step -/

namespace Node

variable {n m last grown joined : Node}

/-- A tree that takes in a node looks the same from above. -/
theorem Grows.profile_eq (h : Grows n m grown) : grown.profile = m.profile := by
  cases h <;> simp [profile, Container.kind_refresh, Container.listType?_refresh]

theorem Grows.kind_ne_document (h : Grows n m grown) : m.kind ≠ .document := by
  cases h with
  | here hc => exact Container.kind_ne_document hc
  | deeper hc => exact Container.kind_ne_document hc

/-- Siblings, the last of which has taken in a node, have the links that it has more. -/
theorem Grows.innerLinks_eq (h : Grows n m grown) {new : List Link}
    (hlinks : grown.links = m.links ++ new) :
    grown.innerLinks = m.innerLinks ++ new := by
  have hkind : grown.kind = m.kind := by
    rw [← kind_profile, h.profile_eq, kind_profile]
  rw [Node.innerLinks_eq h.kind_ne_document, Node.innerLinks_eq (hkind ▸ h.kind_ne_document),
    hlinks]

/-- A tree that takes in a node keeps its links. Those of the node follow behind a sound link to
it. -/
theorem Grows.exists_links (h : Grows n m grown) :
    ∃ l : Link, l.IsSound ∧ grown.links = m.links ++ l :: n.innerLinks := by
  induction h with
  | here _ hfits =>
    refine ⟨_, Container.isSound_of_fits hfits, ?_⟩
    simp [Container.kind_refresh, Container.listType?_refresh]
  | deeper _ _ hgrows ih =>
    obtain ⟨l, hl, hlinks⟩ := ih
    refine ⟨l, hl, ?_⟩
    simp [Container.kind_refresh, Container.listType?_refresh, hgrows.profile_eq,
      hgrows.innerLinks_eq hlinks]

/-- A node that joins another adds its links, and looks the same from above. -/
theorem Joins.innerLinks_eq (h : last.Joins n joined) :
    joined.profile = last.profile ∧ joined.innerLinks = last.innerLinks ++ n.innerLinks := by
  cases h with
  | list htype => simp [profile, innerLinks, kind, Container.kind, Container.listType?, htype]
  | table | descriptionList => simp [profile, innerLinks, kind, Container.kind, Container.listType?]

end Node

namespace Document

variable {d grown : Document} {n : Node} {diagnostics : List Diagnostic}

theorem links_toNode (d : Document) :
    d.toNode.links = d.children.flatMap fun n => ⟨⟨.document, none⟩, n.profile⟩ :: n.innerLinks :=
  Node.links_branch d.flags .document d.children

/-- A document that takes in a node keeps its links. Those of the node follow behind sound ones. -/
theorem TakesIn.exists_links (h : d.TakesIn n grown diagnostics) :
    ∃ new : List Link, (∀ l ∈ new, l.IsSound) ∧
      grown.toNode.links = d.toNode.links ++ (new ++ n.innerLinks) := by
  induction h with
  | @atRoot n | @atEnd n =>
    refine ⟨[⟨⟨.document, none⟩, n.profile⟩], ?_, by simp [links_toNode]⟩
    simpa using Link.isSound_of_document rfl
  | within _ hchildren hgrows =>
    obtain ⟨l, hl, hlinks⟩ := hgrows.exists_links
    refine ⟨[l], by simpa using hl, ?_⟩
    simp [links_toNode, hchildren, hgrows.profile_eq, hgrows.innerLinks_eq hlinks]
  | @wrapped n w grown diagnostics _ hw _ ih =>
    obtain ⟨new, hnew, hlinks⟩ := ih
    obtain ⟨f, c, rfl, hc, hfits⟩ := Node.exists_of_wrapper? hw
    refine ⟨new ++ [⟨⟨c.kind, c.listType?⟩, n.profile⟩], ?_, ?_⟩
    · intro l hl
      rcases List.mem_append.mp hl with hl | hl
      · exact hnew l hl
      · rw [List.mem_singleton.mp hl]
        exact Container.isSound_of_fits hfits
    · have hwrapper : (Node.branch f c [n]).kind ≠ .document := Container.kind_ne_document hc
      rw [hlinks, Node.innerLinks_eq hwrapper]
      simp

/-- Appending a node adds its links behind those of the document, and perhaps sound ones between
them. -/
theorem exists_links_append (d : Document) (n : Node) :
    ∃ new : List Link, (∀ l ∈ new, l.IsSound) ∧
      (d.append n).1.toNode.links = d.toNode.links ++ (new ++ n.innerLinks) := by
  rcases d.append_cases n with ⟨front, last, joined, hchildren, -, hjoins, happend⟩ | ⟨-, htaken⟩
  · obtain ⟨hprofile, hlinks⟩ := hjoins.innerLinks_eq
    refine ⟨[], by simp, ?_⟩
    simp [happend, links_toNode, hchildren, hprofile, hlinks]
  · exact htaken.exists_links

/-! ### Any number of steps -/

/-- Appending a node breaks the content model nowhere, and repairs it nowhere. -/
theorem violationKinds_append (d : Document) (n : Node) :
    (d.append n).1.toNode.violationKinds =
      d.toNode.violationKinds ++ if n.kind = .document then [] else n.violationKinds := by
  obtain ⟨new, hnew, hlinks⟩ := d.exists_links_append n
  have hnone : new.filterMap Link.violation? = [] :=
    List.filterMap_eq_nil_iff.mpr fun l hl => (hnew l hl).1
  rw [Node.violationKinds_eq, hlinks, List.filterMap_append, List.filterMap_append, hnone,
    List.nil_append, ← Node.violationKinds_eq, Node.innerLinks]
  split
  · rfl
  · rw [Node.violationKinds_eq n]

/-- Appending a node puts no list item into a list of another type. -/
theorem mixedItems_append (d : Document) (n : Node) :
    (d.append n).1.toNode.mixedItems =
      d.toNode.mixedItems + if n.kind = .document then 0 else n.mixedItems := by
  obtain ⟨new, hnew, hlinks⟩ := d.exists_links_append n
  have hnone : new.countP Link.mixesItems = 0 :=
    List.countP_eq_zero.mpr fun l hl => Bool.eq_false_iff.mp (hnew l hl).2
  rw [Node.mixedItems, hlinks, List.countP_append, List.countP_append, hnone, Nat.zero_add,
    Node.innerLinks]
  split <;> rfl

/-- A document that is appended to stays well-formed exactly if the node is well-formed, or is
itself a document. -/
theorem wellFormed_append (d : Document) (n : Node) :
    (d.append n).1.toNode.WellFormed ↔ d.toNode.WellFormed ∧
      (n.kind = .document ∨ n.WellFormed) := by
  obtain ⟨new, hnew, hlinks⟩ := d.exists_links_append n
  rw [Node.wellFormed_iff, hlinks, Node.wellFormed_iff, Node.wellFormed_iff]
  simp only [List.mem_append, or_imp, forall_and]
  rw [and_iff_right hnew, Node.innerLinks]
  by_cases hn : n.kind = .document <;> simp [hn]

theorem wellFormed_appendAll (d : Document) (ns : List Node) :
    (d.appendAll ns).1.toNode.WellFormed ↔
      d.toNode.WellFormed ∧ ∀ n ∈ ns, n.kind = .document ∨ n.WellFormed := by
  induction ns generalizing d with
  | nil => simp [appendAll_nil]
  | cons n ns ih => rw [appendAll_cons, ih, wellFormed_append, List.forall_mem_cons, and_assoc]

/-- A document is well-formed exactly if its children are, where those that are documents do not
count. -/
theorem wellFormed_toNode_iff (d : Document) :
    d.toNode.WellFormed ↔ ∀ n ∈ d.children, n.kind = .document ∨ n.WellFormed := by
  have hsound : ∀ n : Node, Link.IsSound ⟨⟨.document, none⟩, n.profile⟩ :=
    fun n => Link.isSound_of_document rfl
  rw [Node.wellFormed_iff, links_toNode]
  simp only [List.forall_mem_flatMap, List.forall_mem_cons, hsound, true_and]
  refine forall₂_congr fun n _ => ?_
  rw [Node.innerLinks, Node.wellFormed_iff]
  by_cases hn : n.kind = .document <;> simp [hn]

/-- Grafting never breaks the content model, and never hides where it is broken. What breaks it in a
document after a node has been appended is, in document order, what broke it before and then what
breaks it in the node, unless that is itself a document. The same goes for list items in lists of
another type. So a document is well-formed exactly if all that it has been built from is. -/
theorem append_keeps_contentModel :
    (∀ (d : Document) (n : Node),
      (d.append n).1.toNode.violationKinds =
          d.toNode.violationKinds ++ (if n.kind = .document then [] else n.violationKinds) ∧
        (d.append n).1.toNode.mixedItems =
          d.toNode.mixedItems + if n.kind = .document then 0 else n.mixedItems) ∧
      (∀ (d : Document) (ns : List Node),
        (d.appendAll ns).1.toNode.WellFormed ↔
          d.toNode.WellFormed ∧ ∀ n ∈ ns, n.kind = .document ∨ n.WellFormed) ∧
      ∀ a b : Document,
        (a.merge b).1.toNode.WellFormed ↔ a.toNode.WellFormed ∧ b.toNode.WellFormed := by
  refine ⟨fun d n => ⟨violationKinds_append d n, mixedItems_append d n⟩, wellFormed_appendAll,
    fun a b => ?_⟩
  rw [wellFormed_toNode_iff b]
  exact wellFormed_appendAll a b.children

end Document

end LiveMarkdown
