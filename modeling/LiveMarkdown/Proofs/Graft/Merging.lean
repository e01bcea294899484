import LiveMarkdown.Proofs.Graft.Destination
import LiveMarkdown.Proofs.Graft.TableCounters

/-!
# Merging documents

Merging two documents appends the children of the second to the first. Blocks stay at the root,
where each of them joins the last child or goes behind it. So which containers meet first depends on
how several merges are grouped, and the result must not.

Whether two containers join is settled by what a join leaves as it is: the type of a list, and the
width of a table whose rows all fit into it. Hence of three neighbours the first two join before the
third exactly if the last two join before the first, and the one container is the same. That is the
step; a run of blocks is pushed through another one by induction on it.

## Main definitions

* `appendChildren`: siblings with several nodes appended one after the other.

## Main results

* `Node.joined?_bind_joined?`: joining is associative where it is defined.
* `appendChildren_appendChildren`: so is appending runs of siblings.
* `Document.merge_merge_of_blocks`: merging documents of blocks is associative.
-/

namespace LiveMarkdown

variable {n x y z xy yz w last joined : Node} {children front ns ms : List Node}

/-! ### Three neighbours -/

/-- The counters of a table whose rows fit into it change in the number of rows only. -/
theorem TableAttributes.refresh_of_widest_le {a : TableAttributes} {rows : List Node}
    (halignments : a.alignments.length = a.numColumns) (hrows : Node.widest rows ≤ a.numColumns) :
    a.refresh rows = { a with numRows := rows.length } := by
  rw [refresh, Nat.max_eq_left hrows, halignments, Nat.sub_self, List.replicate_zero,
    List.append_nil]

theorem TableAttributes.Counts.refresh_append {a b : TableAttributes} (ha : a.Counts ns)
    (hb : b.Counts ms) (hwidth : a.numColumns = b.numColumns) :
    a.refresh (ns ++ ms) = { a with numRows := (ns ++ ms).length } := by
  refine refresh_of_widest_le ha.length_alignments (Node.widest_le_iff.mpr ?_)
  refine List.forall_mem_append.mpr ⟨ha.cells_le, fun row hrow => ?_⟩
  rw [hwidth]
  exact hb.cells_le row hrow

namespace Node

/-- A table that another one joins counts anew. -/
theorem Joins.counts (h : last.Joins n joined) (hlast : last.Counts) : joined.Counts := by
  cases h with
  | list | descriptionList => trivial
  | @table f _ a _ ns ms _ => exact Container.Counts.refresh (c := .table a) hlast (ns ++ ms)

/-- What joins two that have become one joins the second of them first, and the same comes of it. -/
theorem Joins.exists_right (hxy : x.Joins y xy) (hw : xy.Joins z w) (hx : x.Counts) (hy : y.Counts)
    (hz : z.Counts) : ∃ yz, y.Joins z yz ∧ x.Joins yz w := by
  cases hxy with
  | @list f g a b ns ms htype =>
    cases hw with
    | @list _ _ _ c _ ks htype' =>
      rw [Bool.or_assoc, List.append_assoc]
      exact ⟨_, .list (htype.symm.trans htype'),
        .list (b := { b with isTaskList := b.isTaskList || c.isTaskList }) htype⟩
  | @table f g a b ns ms hwidth =>
    cases hw with
    | @table _ _ _ c _ ks hwidth' =>
      have hab := TableAttributes.Counts.refresh_append hx hy hwidth
      have hbc : b.numColumns = c.numColumns := by
        rw [hab] at hwidth'
        exact hwidth.symm.trans hwidth'
      refine ⟨_, .table hbc, ?_⟩
      rw [hab, List.append_assoc]
      refine .table ?_
      rw [TableAttributes.Counts.refresh_append hy hz hbc]
      exact hwidth
  | descriptionList =>
    cases hw with
    | descriptionList =>
      rw [List.append_assoc]
      exact ⟨_, .descriptionList, .descriptionList⟩

/-- What two that have become one join joins the first of them first, and the same comes of it. -/
theorem Joins.exists_left (hyz : y.Joins z yz) (hw : x.Joins yz w) (hx : x.Counts) (hy : y.Counts)
    (hz : z.Counts) : ∃ xy, x.Joins y xy ∧ xy.Joins z w := by
  cases hyz with
  | @list g _ b c ms ks htype =>
    cases hw with
    | @list f _ a _ ns _ htype' =>
      rw [← Bool.or_assoc, ← List.append_assoc]
      exact ⟨_, .list htype',
        .list (a := { a with isTaskList := a.isTaskList || b.isTaskList }) (htype'.trans htype)⟩
  | @table g _ b c ms ks hwidth =>
    cases hw with
    | @table f _ a _ ns _ hwidth' =>
      have hbc := TableAttributes.Counts.refresh_append hy hz hwidth
      have hab : a.numColumns = b.numColumns := by
        rw [hbc] at hwidth'
        exact hwidth'
      refine ⟨_, .table hab, ?_⟩
      rw [← List.append_assoc, TableAttributes.Counts.refresh_append hx hy hab]
      exact .table (a := { a with numRows := (ns ++ ms).length }) (hab.trans hwidth)
  | descriptionList =>
    cases hw with
    | descriptionList =>
      rw [← List.append_assoc]
      exact ⟨_, .descriptionList, .descriptionList⟩

/-- If either two of three neighbours that stand together join, all three do. -/
theorem Joins.exists_all (hxy : x.Joins y xy) (hyz : y.Joins z yz) (hx : x.Counts) (hy : y.Counts) :
    ∃ w, xy.Joins z w := by
  cases hxy with
  | list htype =>
    cases hyz with
    | list htype' => exact ⟨_, .list (htype.trans htype')⟩
  | @table _ _ a b _ _ hwidth =>
    cases hyz with
    | @table _ _ _ c _ _ hwidth' =>
      refine ⟨_, .table ?_⟩
      rw [TableAttributes.Counts.refresh_append hx hy hwidth]
      exact hwidth.trans hwidth'
  | descriptionList =>
    cases hyz with
    | descriptionList => exact ⟨_, .descriptionList⟩

theorem joined?_eq_some_iff : x.joined? y = some joined ↔ x.Joins y joined :=
  ⟨joins_of_joined?, joined?_of_joins⟩

/-- Joining is associative: three neighbours become one in both ways or in neither. -/
theorem joined?_bind_joined? (hx : x.Counts) (hy : y.Counts) (hz : z.Counts) :
    (x.joined? y).bind (·.joined? z) = (y.joined? z).bind x.joined? := by
  refine Option.ext fun w => ?_
  simp only [Option.bind_eq_some_iff, joined?_eq_some_iff]
  constructor
  · rintro ⟨xy, hxy, hw⟩
    exact hxy.exists_right hw hx hy hz
  · rintro ⟨yz, hyz, hw⟩
    exact hyz.exists_left hw hx hy hz

end Node

/-! ### Runs of siblings -/

theorem appendChild_concat_of_eq_none (h : last.joined? n = none) (front : List Node) :
    appendChild (front ++ [last]) n = front ++ [last] ++ [n] := by
  rw [appendChild, List.getLast?_concat, Option.bind_some, h]

theorem appendChild_concat_of_eq_some (h : last.joined? n = some joined) (front : List Node) :
    appendChild (front ++ [last]) n = front ++ [joined] := by
  rw [appendChild, List.getLast?_concat, Option.bind_some, h, List.dropLast_concat]

/-- Siblings with several nodes appended one after the other. -/
def appendChildren (children ns : List Node) : List Node :=
  ns.foldl appendChild children

theorem appendChildren_concat (children ns : List Node) (n : Node) :
    appendChildren children (ns ++ [n]) = appendChild (appendChildren children ns) n :=
  List.foldl_concat ..

/-- A property that no join takes away. -/
def Node.KeptByJoins (p : Node → Prop) : Prop :=
  ∀ last n joined : Node, last.Joins n joined → p last → p joined

theorem Node.keptByJoins_counts : KeptByJoins Counts :=
  fun _ _ _ hjoins hlast => hjoins.counts hlast

theorem Node.keptByJoins_block : KeptByJoins (·.kind.category = .block) := by
  intro last n joined hjoins _
  cases hjoins <;> rfl

section

variable {p : Node → Prop} (hp : Node.KeptByJoins p)

include hp

theorem Node.KeptByJoins.appendChild (hchildren : ∀ m ∈ children, p m) (hn : p n) :
    ∀ m ∈ appendChild children n, p m := by
  rcases List.eq_nil_or_concat children with rfl | ⟨front, last, rfl⟩
  · exact List.forall_mem_singleton.mpr hn
  · rw [List.concat_eq_append] at hchildren ⊢
    cases hjoined : last.joined? n with
    | none =>
      rw [appendChild_concat_of_eq_none hjoined]
      exact List.forall_mem_append.mpr ⟨hchildren, List.forall_mem_singleton.mpr hn⟩
    | some joined =>
      obtain ⟨hfront, hlast⟩ := List.forall_mem_append.mp hchildren
      rw [List.forall_mem_singleton] at hlast
      rw [appendChild_concat_of_eq_some hjoined]
      exact List.forall_mem_append.mpr ⟨hfront,
        List.forall_mem_singleton.mpr (hp last n joined (joins_of_joined? hjoined) hlast)⟩

theorem Node.KeptByJoins.appendChildren (hchildren : ∀ m ∈ children, p m) (hns : ∀ n ∈ ns, p n) :
    ∀ m ∈ appendChildren children ns, p m := by
  induction ns generalizing children with
  | nil => exact hchildren
  | cons n ns ih =>
    obtain ⟨hn, hns⟩ := List.forall_mem_cons.mp hns
    exact ih (hp.appendChild hchildren hn) hns

end

/-- To append two neighbours one after the other is to append what they become together. -/
theorem appendChild_appendChild (hchildren : ∀ m ∈ children, m.Counts) (hy : y.Counts)
    (hz : z.Counts) (hyz : y.joined? z = some yz) :
    appendChild (appendChild children y) z = appendChild children yz := by
  rcases List.eq_nil_or_concat children with rfl | ⟨front, x, rfl⟩
  · exact appendChild_concat_of_eq_some hyz []
  · rw [List.concat_eq_append] at hchildren ⊢
    have hx : x.Counts := hchildren x (List.mem_append_right front (List.mem_singleton_self x))
    have hassoc := Node.joined?_bind_joined? hx hy hz
    rw [hyz, Option.bind_some] at hassoc
    cases hxy : x.joined? y with
    | none =>
      rw [hxy, Option.bind_none] at hassoc
      rw [appendChild_concat_of_eq_none hxy, appendChild_concat_of_eq_some hyz,
        appendChild_concat_of_eq_none hassoc.symm]
    | some xy =>
      rw [hxy, Option.bind_some] at hassoc
      rw [appendChild_concat_of_eq_some hxy]
      cases hw : xy.joined? z with
      | none =>
        obtain ⟨w, hjoins⟩ :=
          (Node.joins_of_joined? hxy).exists_all (Node.joins_of_joined? hyz) hx hy
        exact absurd (hw.symm.trans (Node.joined?_of_joins hjoins)) (Option.some_ne_none w).symm
      | some w =>
        rw [hw] at hassoc
        rw [appendChild_concat_of_eq_some hw, appendChild_concat_of_eq_some hassoc.symm]

/-- A step of the run that is appended may be taken before the run in front of it is. -/
theorem appendChildren_appendChild (hchildren : ∀ m ∈ children, m.Counts) (hns : ∀ n ∈ ns, n.Counts)
    (hz : z.Counts) :
    appendChildren children (appendChild ns z) = appendChild (appendChildren children ns) z := by
  rcases List.eq_nil_or_concat ns with rfl | ⟨front, y, rfl⟩
  · rfl
  · rw [List.concat_eq_append] at hns ⊢
    obtain ⟨hfront, hy⟩ := List.forall_mem_append.mp hns
    rw [List.forall_mem_singleton] at hy
    cases hyz : y.joined? z with
    | none => rw [appendChild_concat_of_eq_none hyz, appendChildren_concat]
    | some yz =>
      have hrun := Node.keptByJoins_counts.appendChildren hchildren hfront
      rw [appendChild_concat_of_eq_some hyz, appendChildren_concat, appendChildren_concat,
        appendChild_appendChild hrun hy hz hyz]

/-- Appending runs of siblings is associative. The induction is on the last run, whose first node
may join the end of the run before. -/
theorem appendChildren_appendChildren (hchildren : ∀ m ∈ children, m.Counts)
    (hns : ∀ n ∈ ns, n.Counts) (hms : ∀ m ∈ ms, m.Counts) :
    appendChildren (appendChildren children ns) ms =
      appendChildren children (appendChildren ns ms) := by
  induction ms generalizing ns with
  | nil => rfl
  | cons z ms ih =>
    obtain ⟨hz, hms⟩ := List.forall_mem_cons.mp hms
    calc appendChildren (appendChildren children ns) (z :: ms)
        = appendChildren (appendChild (appendChildren children ns) z) ms := rfl
      _ = appendChildren (appendChildren children (appendChild ns z)) ms := by
          rw [appendChildren_appendChild hchildren hns hz]
      _ = appendChildren children (appendChildren ns (z :: ms)) :=
          ih (Node.keptByJoins_counts.appendChild hns hz) hms

/-! ### Documents of blocks -/

namespace Document

theorem append_block (d : Document) (hn : n.kind.category = .block) :
    d.append n = ({ d with children := appendChild d.children n }, []) := by
  rw [append, place?_eq, if_pos hn]

/-- Blocks stay at the root, and nothing is reported. -/
theorem appendAll_blocks (d : Document) (hns : ∀ n ∈ ns, n.kind.category = .block) :
    d.appendAll ns = ({ d with children := appendChildren d.children ns }, []) := by
  induction ns generalizing d with
  | nil => rfl
  | cons n ns ih =>
    obtain ⟨hn, hns⟩ := List.forall_mem_cons.mp hns
    rw [appendAll_cons, append_block d hn, ih _ hns]
    rfl

theorem merge_blocks (d : Document) {source : Document}
    (h : ∀ n ∈ source.children, n.kind.category = .block) :
    d.merge source = ({ d with children := appendChildren d.children source.children }, []) :=
  appendAll_blocks d h

/-- Merging documents of blocks is associative, in the documents and in what is reported. The first
document may hold anything. The tables among the children of the three have to count rightly: with a
row that does not fit, a table could get wider by a join, and no longer join what it would have
joined before. -/
theorem merge_merge_of_blocks (a b c : Document) (ha : ∀ n ∈ a.children, n.Counts)
    (hb : ∀ n ∈ b.children, n.kind.category = .block ∧ n.Counts)
    (hc : ∀ n ∈ c.children, n.kind.category = .block ∧ n.Counts) :
    (a.merge b).1.merge c = a.merge (b.merge c).1 := by
  obtain ⟨hbBlock, hbCounts⟩ := forall₂_and.mp hb
  obtain ⟨hcBlock, hcCounts⟩ := forall₂_and.mp hc
  have hbc := Node.keptByJoins_block.appendChildren hbBlock hcBlock
  rw [merge_blocks a hbBlock, merge_blocks b hcBlock, merge_blocks _ hcBlock, merge_blocks a hbc,
    appendChildren_appendChildren ha hbCounts hcCounts]

/-- A table in each of three documents, the second of which holds nothing else: the three become
one. -/
theorem merge_merge_of_three_tables :
    let row := Node.tableRow false [Node.ofContainer .tableCell []]
    let table := Node.table [row] (some [.left])
    let a := Document.ofNodes [Node.paragraph [], table]
    let b := Document.ofNodes [table]
    let c := Document.ofNodes [table, Node.paragraph []]
    (∀ n ∈ a.children, n.Counts) ∧ (∀ n ∈ b.children, n.kind.category = .block ∧ n.Counts) ∧
      (∀ n ∈ c.children, n.kind.category = .block ∧ n.Counts) ∧
      (a.merge b).1.merge c = a.merge (b.merge c).1 ∧
      (a.merge (b.merge c).1).1.children =
        [Node.paragraph [], Node.ofContainer (.table ⟨[.left], 1, 3⟩) [row, row, row],
          Node.paragraph []] := by
  intro row table a b c
  have ha : ∀ n ∈ a.children, n.Counts := by decide
  have hb : ∀ n ∈ b.children, n.kind.category = .block ∧ n.Counts := by decide
  have hc : ∀ n ∈ c.children, n.kind.category = .block ∧ n.Counts := by decide
  refine ⟨ha, hb, hc, merge_merge_of_blocks a b c ha hb hc, ?_⟩
  rw [merge_blocks b fun n hn => (hc n hn).1, merge_blocks a (by decide)]
  cbv

end Document

end LiveMarkdown
