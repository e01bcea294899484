import LiveMarkdown.Proofs.Graft.RightmostPath
import Mathlib.Data.List.Chain

/-!
# Where a node goes and what is reported

The rightmost path of a document decides where a node goes. A block stays at the root, where it may
join the last child. Any other node goes into the shallowest container on the path that takes it. If
none does, an inline node and a document go to the end of the root, which is reported as a fallback,
and a part gets a container of its own, for which the question is asked anew.

That a part never falls back rests on two facts. The containers that are made one around the other
come closer to a block with each step, so that there are at most two of them. And the outermost
cannot get lost by joining the last child of the root: what it could join takes the part that it was
made for.

## Main definitions

* `Document.GoesTo`: a node becomes the last child of the first container on the path with a
  property.
* `Node.IsWrappedBy`: a container that is made for one node.
* `Document.TakesInPart`: a part is taken in, with the containers made for it.

## Main results

* `Document.TakesIn.exists_takesInPart`: a part ends up in the document, in at most two containers
  of its own.
* `Document.append_goes_where_path_decides`: the place and the reports for a node of each category.
-/

namespace LiveMarkdown

/-- A node becomes the last child of the shallowest container on the rightmost path of a document
that has a property. -/
def Document.GoesTo (d grown : Document) (p : Node → Prop) (n : Node) : Prop :=
  ∃ place m m', d.toNode.IsShallowest p place m ∧ grown.toNode.at? place = some m' ∧
    m'.children = m.children ++ [n]

/-- A container that was made for a node: it takes the node, holds nothing else and is marked as
made up. -/
def Node.IsWrappedBy (n w : Node) : Prop :=
  ∃ c, w = .branch .synthetic c [n] ∧ w.Takes n

/-- A document takes in a part. The containers that are made for it are listed from the inside
out. -/
structure Document.TakesInPart (d : Document) (n : Node) (wrappers : List Node) (grown : Document)
    (diagnostics : List Diagnostic) : Prop where
  /-- Each container holds the one before, and the first one the part. -/
  isChain : (n :: wrappers).IsChain Node.IsWrappedBy
  /-- Whatever got a container had no place on the path. -/
  noPlace : ∀ part ∈ (n :: wrappers).dropLast, d.toNode.NoneOnPath (·.Takes part)
  /-- The outermost has one. -/
  goesTo : d.GoesTo grown (·.Takes (wrappers.getLastD n)) (wrappers.getLastD n)
  reported : diagnostics =
    List.zipWith (fun part wrapper => .nodeGrafted part.kind wrapper.kind) (n :: wrappers) wrappers
  isPresent : ∀ m ∈ n :: wrappers, ∃ place, grown.toNode.at? place = some m

namespace Node

variable {m n w last joined : Node} {i : Nat} {place : List Nat}

theorem at?_concat_place (h : m.at? place = some n) (i : Nat) :
    m.at? (place ++ [i]) = n.children[i]? := by
  induction place generalizing m with
  | nil =>
    cases h
    simp [at?]
  | cons j place ih =>
    obtain ⟨child, hchild, hbelow⟩ := Option.bind_eq_some_iff.mp h
    rw [List.cons_append, at?, hchild]
    exact ih hbelow

theorem joined?_of_joins (h : m.Joins n joined) : m.joined? n = some joined := by
  cases h <;> simp_all [joined?]

/-! ### The containers made for a part -/

theorem markSynthetic_ofContainer (c : Container) (ns : List Node) :
    (ofContainer c ns).markSynthetic = branch .synthetic c ns := by
  simp [ofContainer, markSynthetic, addFlags, withFlags, flags, NodeFlags.union, NodeFlags.none,
    NodeFlags.synthetic]

theorem isWrappedBy_of_wrapper? (h : n.wrapper? = some w) : n.IsWrappedBy w := by
  obtain ⟨f, c, rfl, -, hfits⟩ := exists_of_wrapper? h
  have hflags : (branch f c [n]).flags = .synthetic := by
    unfold wrapper? at h
    split at h <;> simp only [Option.some.injEq, reduceCtorEq] at h
    all_goals
      rw [← h]
      exact congrArg flags (markSynthetic_ofContainer _ _)
  obtain rfl : f = .synthetic := hflags
  exact ⟨c, rfl, (Container.fits_iff_takes _ c [n] n).mp hfits⟩

/-- Containers are made for parts only, and they are parts or blocks themselves. -/
theorem category_of_wrapper? (h : n.wrapper? = some w) :
    n.kind.category = .part ∧ (w.kind.category = .part ∨ w.kind.category = .block) := by
  unfold wrapper? at h
  split at h <;> simp only [Option.some.injEq, reduceCtorEq] at h
  all_goals
    subst h
    exact ⟨rfl, by first | exact .inl rfl | exact .inr rfl⟩

theorem wrapper?_ne_none_of_part (hn : n.kind.category = .part) : n.wrapper? ≠ none := by
  cases n with
  | leaf f l => cases l <;> cases hn
  | branch f c ns => cases c <;> first | exact Option.some_ne_none _ | cases hn

theorem wrapDepth_le_two (n : Node) : n.wrapDepth ≤ 2 := by
  unfold wrapDepth
  split <;> decide

theorem kind_eq_document_of_category (hn : n.kind.category = .opaqueContent) :
    n.kind = .document := by
  generalize n.kind = kind at hn
  revert hn
  cases kind <;> decide

end Node

namespace Document

variable {d grown : Document} {n w : Node} {diagnostics : List Diagnostic} {wrappers : List Node}

/-! ### Places in a document -/

theorem GoesTo.isPresent {p : Node → Prop} (h : d.GoesTo grown p n) :
    ∃ place, grown.toNode.at? place = some n := by
  obtain ⟨place, m, m', -, hm', hchildren⟩ := h
  refine ⟨place ++ [m.children.length], ?_⟩
  rw [Node.at?_concat_place hm', hchildren, List.getElem?_concat_length]

theorem goesTo_root (hn : n.kind.category = .block) :
    d.GoesTo { d with children := d.children ++ [n] } (·.Takes n) n :=
  ⟨[], _, _, Node.isShallowest_nil ((Node.takes_toNode_iff d n).mpr hn), rfl, rfl⟩

theorem goesTo_of_grows {front : List Node} {last grownLast : Node} (hn : n.kind.category ≠ .block)
    (hchildren : d.children = front ++ [last]) (hgrows : Node.Grows n last grownLast) :
    d.GoesTo { d with children := front ++ [grownLast] } (·.Takes n) n := by
  obtain ⟨place, m, m', hplace, hm', hm'children⟩ := hgrows.exists_isShallowest
  have hroot : ¬d.toNode.Takes n := mt (Node.takes_toNode_iff d n).mp hn
  rw [toNode, hchildren] at hroot
  refine ⟨front.length :: place, m, m', ?_, ?_, hm'children⟩
  · rw [toNode, hchildren]
    exact hplace.below hgrows.isContainer hgrows.kind_ne_document hroot
  · rw [toNode, Node.at?_concat]
    exact hm'

/-- A node that has no place in a document is taken by no container on the path. -/
theorem noneOnPath_of_place? (h : d.place? n = none) : d.toNode.NoneOnPath (·.Takes n) := by
  rw [place?_eq] at h
  split at h
  · cases h
  · rename_i hn
    rw [Option.map_eq_none_iff] at h
    refine Node.noneOnPath_of_last (mt (Node.takes_toNode_iff d n).mp hn) fun last hlast => ?_
    exact Node.noneOnPath_of_insert? (Node.insert?_eq_none_of_insertLast? h hlast)

/-! ### Parts -/

/-- A node that a container on the path takes needs no container of its own. -/
theorem takesInPart_nil (h : d.GoesTo grown (·.Takes n) n) : d.TakesInPart n [] grown [] where
  isChain := .singleton n
  noPlace _ hpart := absurd hpart List.not_mem_nil
  goesTo := h
  reported := rfl
  isPresent := List.forall_mem_singleton.mpr h.isPresent

/-- One more container, around a node that has no place. -/
theorem TakesInPart.cons (h : d.TakesInPart w wrappers grown diagnostics)
    (hplace : d.toNode.NoneOnPath (·.Takes n)) (hwrapped : n.IsWrappedBy w) :
    d.TakesInPart n (w :: wrappers) grown (.nodeGrafted n.kind w.kind :: diagnostics) where
  isChain := List.isChain_cons_cons.mpr ⟨hwrapped, h.isChain⟩
  noPlace := by
    rw [List.dropLast_cons_cons, List.forall_mem_cons]
    exact ⟨hplace, h.noPlace⟩
  goesTo := by
    rw [List.getLastD_cons]
    exact h.goesTo
  reported := by rw [h.reported, List.zipWith_cons_cons]
  isPresent := by
    refine List.forall_mem_cons.mpr ⟨?_, h.isPresent⟩
    obtain ⟨place, hw⟩ := h.isPresent w List.mem_cons_self
    obtain ⟨c, rfl, -⟩ := hwrapped
    exact ⟨place ++ [0], Node.at?_concat_place hw 0⟩

/-- A part or a block that is taken in ends up in the document, in containers of its own if need be.
The induction follows these from the inside out. -/
theorem TakesIn.exists_takesInPart (h : d.TakesIn n grown diagnostics)
    (hn : n.kind.category = .part ∨ n.kind.category = .block) :
    ∃ wrappers, wrappers.length ≤ n.wrapDepth ∧ d.TakesInPart n wrappers grown diagnostics := by
  induction h with
  | atRoot hblock => exact ⟨[], Nat.zero_le _, takesInPart_nil (goesTo_root hblock)⟩
  | within hnot hchildren hgrows =>
    exact ⟨[], Nat.zero_le _, takesInPart_nil (goesTo_of_grows hnot hchildren hgrows)⟩
  | @wrapped n w _ _ hplace hw _ ih =>
    obtain ⟨wrappers, hlength, hpart⟩ := ih (Node.category_of_wrapper? hw).2
    exact ⟨w :: wrappers, Nat.lt_of_le_of_lt hlength (Node.wrapDepth_wrapper hw),
      hpart.cons (noneOnPath_of_place? hplace) (Node.isWrappedBy_of_wrapper? hw)⟩
  | atEnd hplace hw =>
    rcases hn with hn | hn
    · exact absurd hw (Node.wrapper?_ne_none_of_part hn)
    · rw [place?_eq, if_pos hn] at hplace
      cases hplace

/-! ### All categories -/

/-- A node that is no block joins nothing. -/
theorem takesIn_of_not_block (d : Document) (n : Node) (hn : n.kind.category ≠ .block) :
    d.TakesIn n (d.append n).1 (d.append n).2 := by
  rcases d.append_cases n with ⟨front, last, joined, -, -, hjoins, -⟩ | ⟨-, htaken⟩
  · exact absurd hjoins.category_eq hn
  · exact htaken

/-- A node that is neither a block nor a part goes into the first container on the path that takes
it, or else to the end of the document. -/
theorem TakesIn.cases_of_not_part (h : d.TakesIn n grown diagnostics)
    (hblock : n.kind.category ≠ .block) (hpart : n.kind.category ≠ .part) :
    d.GoesTo grown (·.Takes n) n ∧ diagnostics = [] ∨
      d.toNode.NoneOnPath (·.Takes n) ∧ grown = { d with children := d.children ++ [n] } ∧
        diagnostics = [.contentModelFallback n.kind] := by
  cases h with
  | atRoot hn => exact absurd hn hblock
  | within _ hchildren hgrows => exact .inl ⟨goesTo_of_grows hblock hchildren hgrows, rfl⟩
  | wrapped _ hw _ => exact absurd (Node.category_of_wrapper? hw).1 hpart
  | atEnd hplace _ => exact .inr ⟨noneOnPath_of_place? hplace, rfl, rfl⟩

/-- A block joins the last child of the document, or becomes the last child. -/
theorem append_of_block (d : Document) (hn : n.kind.category = .block) :
    (∃ front last joined, d.children = front ++ [last] ∧ last.Joins n joined ∧
        d.append n = ({ d with children := front ++ [joined] }, [])) ∨
      (∀ last joined, d.children.getLast? = some last → ¬last.Joins n joined) ∧
        d.append n = ({ d with children := d.children ++ [n] }, []) := by
  rcases d.append_cases n with ⟨front, last, joined, hchildren, -, hjoins, happend⟩ | ⟨hnone, -⟩
  · exact .inl ⟨front, last, joined, hchildren, hjoins, happend⟩
  · refine .inr ⟨fun last joined hlast hjoins => ?_, ?_⟩
    · rw [joinedLast?, hlast, Option.bind_some, Node.joined?_of_joins hjoins] at hnone
      cases hnone
    · have hplace : d.place? n = some { d with children := d.children ++ [n] } := by
        rw [place?_eq, if_pos hn, appendChild, ← joinedLast?, hnone]
      rw [append, hplace]

/-- The rightmost path decides where a node goes, and what is reported. A block joins the last child
of the document, if the two are lists of one type, tables of one width or description lists, and
becomes the last child otherwise; nothing is reported. An inline node goes into the first container
on the path for inline content, a cell being one, and else to the end of the document, with one
warning. A document goes there always, with that warning. A part goes into the first container on
the path that takes it. If there is none it gets a container of its own, and so does that one, at
most once; each is marked as made up, is there afterwards and is reported, and there is no
warning. -/
theorem append_goes_where_path_decides (d : Document) (n : Node) :
    match n.kind.category with
    | .block =>
      (∃ front last joined, d.children = front ++ [last] ∧ last.Joins n joined ∧
          d.append n = ({ d with children := front ++ [joined] }, [])) ∨
        (∀ last joined, d.children.getLast? = some last → ¬last.Joins n joined) ∧
          d.append n = ({ d with children := d.children ++ [n] }, [])
    | .inline =>
      let holdsInline := fun m : Node =>
        m.kind.contentModel = .inline ∨ m.kind.contentModel = .cellContainer
      d.GoesTo (d.append n).1 holdsInline n ∧ (d.append n).2 = [] ∨
        d.toNode.NoneOnPath holdsInline ∧
          d.append n = ({ d with children := d.children ++ [n] }, [.contentModelFallback n.kind])
    | .opaqueContent =>
      n.kind = .document ∧
        d.append n = ({ d with children := d.children ++ [n] }, [.contentModelFallback n.kind])
    | .part =>
      ∃ wrappers, wrappers.length ≤ 2 ∧ d.TakesInPart n wrappers (d.append n).1 (d.append n).2 := by
  split
  · rename_i hn
    exact append_of_block d hn
  · rename_i hn
    intro holdsInline
    have htakes : ∀ m : Node, m.Takes n ↔ holdsInline m := Node.takes_iff_of_category hn
    rcases (takesIn_of_not_block d n (by simp [hn])).cases_of_not_part (by simp [hn])
      (by simp [hn]) with
      ⟨⟨place, m, m', hplace, hgrown⟩, hreports⟩ | ⟨hnone, hgrown, hreports⟩
    · exact .inl ⟨⟨place, m, m', hplace.congr htakes, hgrown⟩, hreports⟩
    · exact .inr ⟨fun place m hpath hm => mt (htakes m).mpr (hnone place m hpath hm),
        Prod.ext hgrown hreports⟩
  · rename_i hn
    have hdocument := Node.kind_eq_document_of_category hn
    refine ⟨hdocument, ?_⟩
    rcases (takesIn_of_not_block d n (by simp [hn])).cases_of_not_part (by simp [hn])
      (by simp [hn]) with
      ⟨⟨place, m, m', hplace, -⟩, -⟩ | ⟨-, hgrown, hreports⟩
    · exact absurd hplace.holds (Node.not_takes_document hdocument m)
    · exact Prod.ext hgrown hreports
  · rename_i hn
    obtain ⟨wrappers, hlength, hpart⟩ :=
      (takesIn_of_not_block d n (by simp [hn])).exists_takesInPart (.inl hn)
    exact ⟨wrappers, hlength.trans n.wrapDepth_le_two, hpart⟩

end Document

end LiveMarkdown
