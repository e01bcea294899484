import LiveMarkdown.Proofs.Graft.Destination
import LiveMarkdown.Proofs.Graft.Frame

/-!
# Parts that arrive one by one

A part that has no place in a document gets a container of its own. Further parts of the same sort
go into that container, so that a run of them builds up a table, a list or a description list from
its first part on. The same container comes about if it is made around all the parts at once and
appended as a whole.

The first part brings the container to the end of the document, since nothing on the rightmost path
takes the part or what is made around it. From then on the container is the last child. It is the
shallowest node on the path that takes a further part, whatever the parts in it hold, and with each
of them it stays the container that would have been made around all so far: a table that counts anew
has exactly as many unaligned columns as its widest row.

## Main definitions

* `PartFamily`: the sorts of parts, with `PartFamily.Holds`, `PartFamily.IsHome` and
  `PartFamily.whole`.
* `Node.IsEnclosed`: the block that the containers made for a node end in.

## Main results

* `PartFamily.grows_whole`: a container of parts takes in a further one.
* `Document.appendAll_concat_whole`: so it does with a run of them.
* `Document.appendAll_parts`: appending parts one by one is appending their container.
-/

namespace LiveMarkdown

/-- The sorts of parts that are gathered in one container. -/
inductive PartFamily where
  | rows
  | cells
  /-- List items of one type. -/
  | items (type : ListType)
  | tasks
  /-- Terms and details, in any order. -/
  | descriptions

namespace PartFamily

/-- Whether a node is a part of the family. -/
def Holds (family : PartFamily) (n : Node) : Prop :=
  match family with
  | rows => n.kind = .tableRow
  | cells => n.kind = .tableCell
  | items type => n.kind = .listItem ∧ n.profile.listType? = some type
  | tasks => n.kind = .taskItem
  | descriptions => n.kind = .descriptionTerm ∨ n.kind = .descriptionDetails

/-- Whether a node takes parts of the family, or a container that is made for them. -/
def IsHome (family : PartFamily) (m : Node) : Prop :=
  match family with
  | rows => m.kind = .table
  | cells => m.kind = .table ∨ m.kind = .tableRow
  | items type => m.kind = .list ∧ m.profile.listType? = some type
  | tasks => m.kind = .list
  | descriptions => m.kind = .descriptionList ∨ m.kind = .descriptionItem

instance : (family : PartFamily) → (n : Node) → Decidable (family.Holds n)
  | rows, n => inferInstanceAs (Decidable (n.kind = .tableRow))
  | cells, n => inferInstanceAs (Decidable (n.kind = .tableCell))
  | items type, n =>
    inferInstanceAs (Decidable (n.kind = .listItem ∧ n.profile.listType? = some type))
  | tasks, n => inferInstanceAs (Decidable (n.kind = .taskItem))
  | descriptions, n =>
    inferInstanceAs (Decidable (n.kind = .descriptionTerm ∨ n.kind = .descriptionDetails))

/-- The attributes of a list that is made for items: its type, its start and its bullet are those of
the first. -/
def listOfFirst : List Node → ListAttributes
  | .branch _ (.listItem a) _ :: _ =>
    { listType := a.listType, start := a.start, bulletChar := a.bulletChar }
  | _ => {}

/-- The container that is made around all the parts at once. -/
def whole (family : PartFamily) (parts : List Node) : Node :=
  match family with
  | rows => (Node.table parts none).markSynthetic
  | cells => (Node.table [(Node.tableRow false parts).markSynthetic] none).markSynthetic
  | items _ => (Node.list (listOfFirst parts) parts).markSynthetic
  | tasks => (Node.list { isTaskList := true } parts).markSynthetic
  | descriptions =>
    (Node.ofContainer .descriptionList
      [(Node.ofContainer .descriptionItem parts).markSynthetic]).markSynthetic

end PartFamily

variable {d : Document} {family : PartFamily} {n m v w last grown joined : Node}
  {ns parts front : List Node} {p : Node → Prop}

/-! ### The first part -/

/-- The containers that are made around a node, one around the other, end in a block. Nothing takes
the node or one of the containers but what has the given property. -/
inductive Node.IsEnclosed (p : Node → Prop) : Node → Node → Prop
  | block {w : Node} (hw : w.kind.category = .block) : IsEnclosed p w w
  | wrapped {n v w : Node} (hn : n.kind.category ≠ .block) (hv : n.wrapper? = some v)
      (htakes : ∀ m : Node, m.Takes n → p m) (h : IsEnclosed p v w) : IsEnclosed p n w

theorem NodeKind.mem_acceptedBy {parent child : NodeKind} (h : parent.accepts child = true) :
    parent ∈ child.acceptedBy :=
  List.mem_filter.mpr ⟨parent.mem_all, h⟩

namespace Node

/-- The kind of a part decides on its container. -/
theorem wrapper?_eq (n : Node) : n.wrapper? =
    match n.kind with
    | .listItem => some (list (PartFamily.listOfFirst [n]) [n]).markSynthetic
    | .taskItem => some (list { isTaskList := true } [n]).markSynthetic
    | .tableRow => some (table [n] none).markSynthetic
    | .tableCell => some (tableRow false [n]).markSynthetic
    | .descriptionTerm | .descriptionDetails =>
      some (ofContainer .descriptionItem [n]).markSynthetic
    | .descriptionItem => some (ofContainer .descriptionList [n]).markSynthetic
    | _ => none := by
  cases n with
  | leaf f l => cases l <;> rfl
  | branch f c children => cases c <;> rfl

/-- What takes a row is a table. -/
theorem Takes.kind_eq_table (h : m.Takes n) (hn : n.kind = .tableRow) : m.kind = .table := by
  have hmem := NodeKind.mem_acceptedBy h.1
  rw [hn] at hmem
  exact List.mem_singleton.mp hmem

/-- What takes an item of a description list is such a list. -/
theorem Takes.kind_eq_descriptionList (h : m.Takes n) (hn : n.kind = .descriptionItem) :
    m.kind = .descriptionList := by
  have hmem := NodeKind.mem_acceptedBy h.1
  rw [hn] at hmem
  exact List.mem_singleton.mp hmem

end Node

namespace PartFamily

/-- What takes a part of the family is a home of the family. -/
theorem isHome_of_takes (hn : family.Holds n) (hm : m.Takes n) : family.IsHome m := by
  have hmem := NodeKind.mem_acceptedBy hm.1
  cases family with
  | rows => exact hm.kind_eq_table hn
  | cells =>
    rw [show n.kind = .tableCell from hn] at hmem
    exact .inr (List.mem_singleton.mp hmem)
  | items type =>
    rw [hn.1] at hmem
    have hlist := List.mem_singleton.mp hmem
    exact ⟨hlist, (hm.2 ⟨hlist, hn.1⟩).trans hn.2⟩
  | tasks =>
    rw [show n.kind = .taskItem from hn] at hmem
    exact List.mem_singleton.mp hmem
  | descriptions =>
    rcases hn with hn | hn
    · rw [hn] at hmem
      exact .inr (List.mem_singleton.mp hmem)
    · rw [hn] at hmem
      exact .inr (List.mem_singleton.mp hmem)

/-- Parts of a family are no blocks. -/
theorem not_block_of_holds (hn : family.Holds n) : n.kind.category ≠ .block := by
  cases family with
  | rows | cells | tasks => rw [show n.kind = _ from hn]; decide
  | items => rw [hn.1]; decide
  | descriptions => rcases hn with hn | hn <;> rw [hn] <;> decide

/-- The containers that are made for a first part are those that would be made around it alone. -/
theorem isEnclosed_whole (hn : family.Holds n) : n.IsEnclosed family.IsHome (family.whole [n]) := by
  have hblock := not_block_of_holds hn
  have htakes : ∀ m : Node, m.Takes n → family.IsHome m := fun m => isHome_of_takes hn
  cases family with
  | rows =>
    refine .wrapped hblock ?_ htakes (.block rfl)
    rw [Node.wrapper?_eq, show n.kind = .tableRow from hn]
    rfl
  | cells =>
    refine .wrapped hblock (v := (Node.tableRow false [n]).markSynthetic) ?_ htakes ?_
    · rw [Node.wrapper?_eq, show n.kind = .tableCell from hn]
    · exact .wrapped (show NodeCategory.part ≠ .block by decide) rfl
        (fun m hm => .inl (hm.kind_eq_table rfl)) (.block rfl)
  | items type =>
    refine .wrapped hblock ?_ htakes (.block rfl)
    rw [Node.wrapper?_eq, hn.1]
    rfl
  | tasks =>
    refine .wrapped hblock ?_ htakes (.block rfl)
    rw [Node.wrapper?_eq, show n.kind = .taskItem from hn]
    rfl
  | descriptions =>
    refine .wrapped hblock (v := (Node.ofContainer .descriptionItem [n]).markSynthetic) ?_ htakes ?_
    · rw [Node.wrapper?_eq]
      rcases hn with hn | hn <;> rw [hn]
    · exact .wrapped (show NodeCategory.part ≠ .block by decide) rfl
        (fun m hm => .inl (hm.kind_eq_descriptionList rfl)) (.block rfl)

end PartFamily

namespace Node

/-- Containers that join are alike for the content model. -/
theorem Joins.profile_eq (h : last.Joins n joined) : last.profile = n.profile := by
  cases h with
  | list htype => exact congrArg (fun type => NodeProfile.mk .list (some type)) htype
  | table | descriptionList => rfl

end Node

namespace Document

/-- A node that no container on the path takes has no place. -/
theorem place?_eq_none_of_noneOnPath (hn : n.kind.category ≠ .block)
    (hnone : d.toNode.NoneOnPath (·.Takes n)) : d.place? n = none := by
  rw [place?_eq, if_neg hn, Option.map_eq_none_iff, Option.eq_none_iff_forall_ne_some]
  intro grown hgrown
  obtain ⟨front, last, g, hchildren, -, hgrows⟩ := Node.exists_grows_of_insertLast? hn hgrown
  obtain ⟨place, m, -, hm, -⟩ := goesTo_of_grows hn hchildren hgrows
  exact hnone place m hm.onPath hm.at?_eq hm.holds

/-- Appending a node that has no place is appending the block that its containers end in. -/
theorem append_of_isEnclosed (h : n.IsEnclosed p w) (hpath : d.toNode.NoneOnPath p) :
    (d.append n).1 = (d.append w).1 := by
  induction h with
  | block => rfl
  | @wrapped n v w hn hv htakes _ ih =>
    have hplace : d.place? n = none :=
      place?_eq_none_of_noneOnPath hn fun place m hm hat => mt (htakes m) (hpath place m hm hat)
    rw [← ih, append, hplace]
    dsimp only
    split
    · rename_i v' hv'
      obtain rfl := Option.some.inj (hv.symm.trans hv')
      rfl
    · rename_i hnone
      exact absurd (hv.symm.trans hnone) (Option.some_ne_none v)

/-- On a path without a node of the profile, a block does not join the last child. -/
theorem append_of_noneOnPath (hw : w.kind.category = .block)
    (hpath : d.toNode.NoneOnPath (·.profile = w.profile)) :
    d.append w = ({ d with children := d.children ++ [w] }, []) := by
  rcases append_of_block d hw with ⟨front, last, joined, hchildren, hjoins, -⟩ | ⟨-, happend⟩
  · have hon : d.toNode.onRightmostPath [front.length] = true := by
      rw [toNode, hchildren, Node.onRightmostPath_concat hjoins.isContainer hjoins.kind_ne_document]
      rfl
    have hat : d.toNode.at? [front.length] = some last := by
      rw [toNode, hchildren, Node.at?_concat]
      rfl
    exact absurd hjoins.profile_eq (hpath _ last hon hat)
  · exact happend

end Document

/-! ### Further parts -/

/-- The attributes of a table whose columns are those of its widest row. -/
theorem TableAttributes.refresh_unaligned {rows grown : List Node}
    (h : Node.widest rows ≤ Node.widest grown) (count : Nat) :
    refresh ⟨List.replicate (Node.widest rows) .none, Node.widest rows, count⟩ grown =
      ⟨List.replicate (Node.widest grown) .none, Node.widest grown, grown.length⟩ := by
  rw [refresh]
  simp only [Nat.max_eq_right h, List.length_replicate, List.replicate_append_replicate,
    Nat.add_sub_cancel' h]

namespace Node

/-- A table without given alignments, marked as made up. -/
theorem markSynthetic_table (rows : List Node) :
    (table rows none).markSynthetic =
      branch .synthetic (.table ⟨List.replicate (widest rows) .none, widest rows, rows.length⟩)
        rows := by
  rw [table, markSynthetic_ofContainer, Option.getD_none, List.length_replicate]

theorem widest_le_append (rows more : List Node) : widest rows ≤ widest (rows ++ more) :=
  widest_le_iff.mpr fun row hrow =>
    widest_le_iff.mp (Nat.le_refl _) row (List.mem_append_left more hrow)

theorem widest_singleton (row : Node) : widest [row] = row.children.length :=
  Nat.zero_max _

end Node

/-- A container that accepts a node takes it, unless it is a list. -/
theorem Container.fits_of_accepts {c : Container} (hc : c.kind ≠ .list)
    (h : c.kind.accepts n.kind = true) :
    c.fits n = true :=
  (fits_iff_takes .none c [] n).mpr ⟨h, fun hlist => absurd hlist.1 hc⟩

theorem Container.fits_eq_false {c : Container} (h : c.kind.accepts n.kind = false) :
    c.fits n = false := by
  unfold fits
  rw [h, Bool.false_and]

/-- A container takes in what its only child takes in. -/
theorem Node.Grows.only_child {f : NodeFlags} {c : Container} (hc : c ≠ .document)
    (hfits : c.fits n = false) (h : Grows n last grown) :
    Grows n (.branch f c [last]) (.branch f (c.refresh [grown]) [grown]) :=
  @deeper n f c [] last grown hc hfits h

namespace PartFamily

theorem listType_listOfFirst {type : ListType} (hn : (items type).Holds n) (ns : List Node) :
    (listOfFirst (n :: ns)).listType = type := by
  obtain ⟨hkind, htype⟩ := hn
  cases n with
  | leaf f l => cases l <;> cases hkind
  | branch f c children =>
    cases c <;> cases hkind
    exact Option.some.inj htype

/-- The container of parts is the home of a further part. -/
theorem isHome_of_profile_eq (hn : family.Holds n)
    (h : m.profile = (family.whole (n :: ns)).profile) :
    family.IsHome m := by
  have hkind : m.kind = (family.whole (n :: ns)).kind := by
    rw [← Node.kind_profile, h, Node.kind_profile]
  cases family with
  | rows | tasks => exact hkind
  | cells | descriptions => exact .inl hkind
  | items type => exact ⟨hkind, by rw [h, ← listType_listOfFirst hn ns]; rfl⟩

theorem whole_block (family : PartFamily) (parts : List Node) :
    (family.whole parts).kind.category = .block := by
  cases family <;> rfl

theorem listOfFirst_append (m : Node) (ns more : List Node) :
    listOfFirst (m :: ns ++ more) = listOfFirst (m :: ns) := by
  rw [List.cons_append]
  cases m with
  | leaf f l => rfl
  | branch f c children => cases c <;> rfl

/-- The container of parts takes in a further one, and becomes the container of them all. -/
theorem grows_whole (hm : family.Holds m) (hn : family.Holds n) :
    Node.Grows n (family.whole (m :: ns)) (family.whole (m :: ns ++ [n])) := by
  cases family with
  | rows =>
    have hfits (a : TableAttributes) : Container.fits (.table a) n = true :=
      Container.fits_of_accepts (show NodeKind.table ≠ .list by decide)
        (by rw [show n.kind = .tableRow from hn]; rfl)
    rw [whole, whole, Node.markSynthetic_table, Node.markSynthetic_table,
      ← TableAttributes.refresh_unaligned (Node.widest_le_append (m :: ns) [n])]
    exact .here (c := .table _) (by simp) (hfits _)
  | cells =>
    have hkind : n.kind = .tableCell := hn
    have htable (a : TableAttributes) : Container.fits (.table a) n = false :=
      Container.fits_eq_false (by rw [hkind]; rfl)
    have hrow : Container.fits (.tableRow false) n = true :=
      Container.fits_of_accepts (by decide) (by rw [hkind]; rfl)
    have hgrows : Node.Grows n (Node.tableRow false (m :: ns)).markSynthetic
        (Node.tableRow false (m :: ns ++ [n])).markSynthetic :=
          .here (c := .tableRow false) (by simp) hrow
    have hwidest : Node.widest [(Node.tableRow false (m :: ns)).markSynthetic] ≤
        Node.widest [(Node.tableRow false (m :: ns ++ [n])).markSynthetic] := by
      rw [Node.widest_singleton, Node.widest_singleton]
      exact (List.sublist_append_left (m :: ns) [n]).length_le
    rw [whole, whole, Node.markSynthetic_table, Node.markSynthetic_table,
      ← TableAttributes.refresh_unaligned hwidest]
    exact .only_child (c := .table _) (by simp) (htable _) hgrows
  | items type =>
    have hfits : Container.fits (.list (listOfFirst (m :: ns))) n = true := by
      refine (Container.fits_iff_takes .none _ [] n).mpr ⟨?_, fun _ => ?_⟩
      · rw [hn.1]
        rfl
      · rw [hn.2, ← listType_listOfFirst hm ns]
        rfl
    rw [whole, whole, listOfFirst_append]
    exact .here (c := .list _) (by simp) hfits
  | tasks =>
    have hkind : n.kind = .taskItem := hn
    have hfits (a : ListAttributes) : Container.fits (.list a) n = true := by
      refine (Container.fits_iff_takes .none _ [] n).mpr ⟨?_, fun hitem => ?_⟩
      · rw [hkind]
        rfl
      · exact absurd (hkind.symm.trans hitem.2) (by decide)
    exact .here (c := .list _) (by simp) (hfits _)
  | descriptions =>
    have haccepts : NodeKind.accepts .descriptionList n.kind = false ∧
        NodeKind.accepts .descriptionItem n.kind = true := by
      rcases hn with hn | hn <;> rw [hn] <;> exact ⟨rfl, rfl⟩
    have hitem : Container.fits .descriptionItem n = true :=
      Container.fits_of_accepts (by decide) haccepts.2
    have hgrows : Node.Grows n (Node.ofContainer .descriptionItem (m :: ns)).markSynthetic
        (Node.ofContainer .descriptionItem (m :: ns ++ [n])).markSynthetic :=
      .here (c := .descriptionItem) (by simp) hitem
    exact .only_child (c := .descriptionList) (by simp) (Container.fits_eq_false haccepts.1) hgrows

end PartFamily

/-! ### Runs of parts -/

/-- A tree that takes in a node does so where the node is put. -/
theorem Node.insert?_of_grows (hn : n.kind.category ≠ .block) (h : Grows n last grown) :
    insert? n last = some grown := by
  induction h with
  | here hc hfits => rw [insert?, if_neg hc, if_pos hfits, appendChild_of_not_block hn]
  | deeper hc hfits _ ih =>
    rw [insert?, if_neg hc, hfits, if_neg Bool.false_ne_true, insertLast?_concat, ih]
    rfl

namespace Document

/-- A node that the last child of a document takes in goes there. -/
theorem append_of_grows (hn : n.kind.category ≠ .block) (hchildren : d.children = front ++ [last])
    (hgrows : Node.Grows n last grown) :
    d.append n = ({ d with children := front ++ [grown] }, []) := by
  have hplace : d.place? n = some { d with children := front ++ [grown] } := by
    rw [place?_eq, if_neg hn, hchildren, Node.insertLast?_concat, Node.insert?_of_grows hn hgrows]
    rfl
  rw [append, hplace]

/-- A container of parts at the end of a document takes in a run of parts. -/
theorem appendAll_concat_whole (hm : family.Holds m) (hns : ∀ n ∈ ns, family.Holds n) :
    (appendAll { d with children := front ++ [family.whole (m :: parts)] } ns).1 =
      { d with children := front ++ [family.whole (m :: parts ++ ns)] } := by
  induction ns generalizing parts with
  | nil => rw [List.append_nil]; rfl
  | cons n ns ih =>
    obtain ⟨hn, hns⟩ := List.forall_mem_cons.mp hns
    rw [appendAll_cons,
      append_of_grows (PartFamily.not_block_of_holds hn) rfl (PartFamily.grows_whole hm hn),
      List.cons_append]
    refine (ih hns).trans ?_
    rw [← List.cons_append, List.append_assoc, List.singleton_append]

/-- Appending parts of one family to a document, one by one, is appending the container of them all,
if nothing on the rightmost path is a home of such parts. -/
theorem appendAll_parts (d : Document) (family : PartFamily) (parts : List Node) (hne : parts ≠ [])
    (hparts : ∀ n ∈ parts, family.Holds n) (hpath : d.toNode.NoneOnPath family.IsHome) :
    (d.appendAll parts).1 = (d.append (family.whole parts)).1 := by
  obtain ⟨first, more, rfl⟩ := List.exists_cons_of_ne_nil hne
  obtain ⟨hfirst, hmore⟩ := List.forall_mem_cons.mp hparts
  have hfresh (ns : List Node) : d.append (family.whole (first :: ns)) =
      ({ d with children := d.children ++ [family.whole (first :: ns)] }, []) :=
    append_of_noneOnPath (family.whole_block _) fun place m hon hat hprofile =>
      hpath place m hon hat (PartFamily.isHome_of_profile_eq hfirst hprofile)
  have hone : (d.append first).1 = { d with children := d.children ++ [family.whole [first]] } := by
    rw [append_of_isEnclosed (PartFamily.isEnclosed_whole hfirst) hpath, hfresh []]
  rw [appendAll_cons, hone, hfresh more]
  exact appendAll_concat_whole hfirst hmore

/-- The details that come first hold a description list themselves. The later parts do not go
there. -/
theorem appendAll_parts_of_nested_list :
    let nested := Node.ofContainer .descriptionList [Node.ofContainer .descriptionItem []]
    let parts :=
      [Node.ofContainer .descriptionDetails [nested], Node.ofContainer .descriptionTerm [],
        Node.ofContainer .descriptionDetails []]
    let d := Document.ofNodes [Node.paragraph []]
    parts ≠ [] ∧ (∀ n ∈ parts, PartFamily.descriptions.Holds n) ∧
      d.toNode.NoneOnPath PartFamily.descriptions.IsHome ∧
      (d.appendAll parts).1 = (d.append (PartFamily.descriptions.whole parts)).1 ∧
      (d.appendAll parts).1.children = d.children ++ [PartFamily.descriptions.whole parts] := by
  intro nested parts d
  have hne : parts ≠ [] := List.cons_ne_nil _ _
  have hparts : ∀ n ∈ parts, PartFamily.descriptions.Holds n := by decide
  have hpath : d.toNode.NoneOnPath PartFamily.descriptions.IsHome := by
    refine Node.noneOnPath_of_last (by simp [PartFamily.IsHome, Node.kind, Container.kind]) ?_
    rintro _ ⟨⟩ _ _
    refine Node.noneOnPath_of_last (by simp [PartFamily.IsHome, Node.kind, Container.kind]) ?_
    rintro _ ⟨⟩
  have hall := appendAll_parts d .descriptions parts hne hparts hpath
  exact ⟨hne, hparts, hpath, hall, by rw [hall]; cbv⟩

end Document

end LiveMarkdown
