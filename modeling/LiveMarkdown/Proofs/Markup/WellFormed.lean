import LiveMarkdown.Markup.Convert
import LiveMarkdown.Proofs.Node.Regular

/-!
# Markup trees give well-formed documents

Markup has a content model of its own: flow content stands in the root, in quotes, items and
footnotes, phrasing in paragraphs, headings, marks, links and cells, items in lists, rows in tables,
cells in rows. A tree that keeps to it is turned into nodes that keep to the content model of
documents. HTML is both flow and phrasing, and becomes a block or an inline by where it stands; some
trees give no nodes or several.

## Main definitions

* `MarkupContent`: what a place in a markup tree may hold.
* `ContentModel.held?`: the category of the nodes that a content model holds.
* `MarkupTree.isContent`, `MarkupTree.areContent`: trees that may stand there.
* `MarkupTree.nodesAs`: the nodes that a tree gives there.

## Main results

* `regular_of_held?`: a container that holds nodes of one category.
* `MarkupTree.regular_of_isContent`: a tree gives regular nodes of the category that its place asks
  for.
* `documentNodes_wellFormed`: the document of a text.
-/

namespace LiveMarkdown

/-- What a place in a markup tree may hold. -/
inductive MarkupContent where
  | flow
  | phrasing
  /-- The items of a list. -/
  | items
  /-- The rows of a table. -/
  | rows
  /-- The cells of a row. -/
  | cells
  deriving DecidableEq, Repr

/-- Whether a leaf may stand at a place. -/
def MarkupLeaf.isContent (k : MarkupContent) : MarkupLeaf → Bool
  | thematicBreak | code _ _ _ | yaml _ | math _ | definition _ _ _ => k = .flow
  | text _ | inlineCode _ | lineBreak | image _ _ _ | imageReference _ _ | footnoteReference _ _
  | inlineMath _ => k = .phrasing
  | html _ => k = .flow ∨ k = .phrasing

/-- Whether a node with children may stand at a place. Types without a meaning are extensions, which
may be flow or phrasing. -/
def MarkupBranch.isContent (k : MarkupContent) : MarkupBranch → Bool
  | paragraph | heading _ | blockquote | list _ _ _ | table _ | footnoteDefinition _ _ => k = .flow
  | emphasis | strong | delete | link _ _ | linkReference _ => k = .phrasing
  | listItem _ => k = .items
  | tableRow => k = .rows
  | tableCell => k = .cells
  | unknown => k = .flow ∨ k = .phrasing

/-- What a node with children holds. Types without a meaning may hold anything. -/
def MarkupBranch.content? : MarkupBranch → Option MarkupContent
  | blockquote | listItem _ | footnoteDefinition _ _ => some .flow
  | paragraph | heading _ | emphasis | strong | delete | link _ _ | linkReference _ | tableCell =>
    some .phrasing
  | list _ _ _ => some .items
  | table _ => some .rows
  | tableRow => some .cells
  | unknown => none

namespace MarkupTree

mutual

/-- Whether a tree may stand at a place, and everything in the tree may stand where it does. -/
def isContent (k : MarkupContent) : MarkupTree → Bool
  | leaf _ l => l.isContent k
  | branch _ b children =>
    b.isContent k &&
      match b.content? with
      | some content => areContent content children
      | none => true

/-- Whether siblings may stand at a place. -/
def areContent (k : MarkupContent) : List MarkupTree → Bool
  | [] => true
  | t :: ts => isContent k t && areContent k ts

end

/-- The nodes that a tree gives at a place. An item, a row or a cell gives what it holds. -/
def nodesAs (s : Source) : MarkupContent → MarkupTree → List Node
  | .flow, t => t.toNodes s false
  | .phrasing, t => t.toNodes s true
  | .items, t => contentNodes s false t
  | .rows, t => cellsOf s t
  | .cells, t => contentNodes s true t

end MarkupTree

/-- The nodes that trees at a place give are of this sort. -/
def MarkupContent.Gives : MarkupContent → NodeKind → Prop
  | flow, k | items, k => k.category = .block
  | phrasing, k | cells, k => k.category = .inline
  | rows, k => k = .tableCell

/-! ### Leaves -/

theorem regular_textNodes (value : String) :
    ∀ n ∈ textNodes value, n.kind.category = .inline ∧ n.Regular := by
  have hline : ∀ cs : List Char, ∀ n ∈ (if cs.isEmpty then [] else [Node.text (String.ofList cs)]),
      n.kind.category = .inline ∧ n.Regular := by
    intro cs n hn
    split at hn
    · cases hn
    · obtain rfl := List.mem_singleton.mp hn
      exact ⟨rfl, Node.regular_leaf _⟩
  unfold textNodes
  split
  · simp
  · rename_i first rest _
    refine List.forall_mem_append.mpr ⟨hline first, List.forall_mem_flatMap.mpr fun cs _ => ?_⟩
    exact List.forall_mem_cons.mpr ⟨⟨rfl, Node.regular_leaf _⟩, hline cs⟩

theorem exists_codeNode_eq (slice : List Char) (lang info : Option String) (value : String) :
    ∃ block, codeNode slice lang info value = .leaf .none (.codeBlock block) := by
  unfold codeNode
  cases fenceOf? slice <;> exact ⟨_, rfl⟩

theorem regular_codeNode (slice : List Char) (lang info : Option String) (value : String) :
    (codeNode slice lang info value).kind.category = .block ∧
      (codeNode slice lang info value).Regular := by
  obtain ⟨block, hblock⟩ := exists_codeNode_eq slice lang info value
  rw [hblock]
  exact ⟨rfl, Node.regular_leaf _⟩

/-- The category of the nodes that a content model holds, if it takes in all of one category. A
document takes in what fits nowhere else, so it is left out. -/
def ContentModel.held? : ContentModel → Option NodeCategory
  | block | itemContainer => some .block
  | inline | cellContainer => some .inline
  | _ => none

theorem NodeKind.accepts_eq_true_of_held? {parent child : NodeKind}
    (h : parent.contentModel.held? = some child.category) : parent.accepts child = true := by
  rw [accepts]
  cases hmodel : parent.contentModel <;> simp [hmodel, ContentModel.held?] at h ⊢ <;> exact h.symm

/-- A container that holds nodes of one category is regular if they are. -/
theorem regular_of_held? {c : Container} {ns : List Node} {category : NodeCategory}
    (hc : c.kind.contentModel.held? = some category)
    (hns : ∀ n ∈ ns, n.kind.category = category ∧ n.Regular) : (Node.ofContainer c ns).Regular := by
  refine Node.regular_ofContainer (by rintro rfl; cases hc) (fun n hn => ?_) ?_ fun n hn =>
    (hns n hn).2
  · exact NodeKind.accepts_eq_true_of_held? (hc.trans (congrArg some (hns n hn).1.symm))
  · -- lists and tables describe what they hold, but hold no category
    cases c <;> trivial

theorem regular_image (url title : String) (alt : Option String) :
    (Node.ofContainer (.image url title) (altNodes alt)).Regular := by
  refine regular_of_held? rfl ?_
  unfold altNodes
  split
  · exact List.forall_mem_singleton.mpr ⟨rfl, Node.regular_leaf _⟩
  · simp

theorem MarkupLeaf.regular_flow (s : Source) (slice : List Char) {l : MarkupLeaf}
    (h : l.isContent .flow = true) :
    ∀ n ∈ l.toNodes s false slice, n.kind.category = .block ∧ n.Regular := by
  cases l with
  | code lang info value =>
    exact List.forall_mem_singleton.mpr (regular_codeNode slice lang info value)
  | definition _ _ _ => simp [toNodes]
  | thematicBreak | html | yaml | math =>
    exact List.forall_mem_singleton.mpr ⟨rfl, Node.regular_leaf _⟩
  | _ => cases h

theorem MarkupLeaf.regular_phrasing (s : Source) (slice : List Char) {l : MarkupLeaf}
    (h : l.isContent .phrasing = true) :
    ∀ n ∈ l.toNodes s true slice, n.kind.category = .inline ∧ n.Regular := by
  cases l with
  | text value => exact regular_textNodes value
  | image | imageReference => exact List.forall_mem_singleton.mpr ⟨rfl, regular_image _ _ _⟩
  | html | inlineCode | lineBreak | footnoteReference | inlineMath =>
    exact List.forall_mem_singleton.mpr ⟨rfl, Node.regular_leaf _⟩
  | _ => cases h

/-! ### Lists and tables -/

namespace MarkupTree

variable (s : Source)

theorem toNodesList_eq_flatMap (inline : Bool) :
    (ts : List MarkupTree) → toNodesList s inline ts = ts.flatMap (toNodes s inline)
  | [] => by rw [toNodesList, List.flatMap_nil]
  | t :: ts => by rw [toNodesList, toNodesList_eq_flatMap inline ts, List.flatMap_cons]

theorem regular_toNodesList {p : NodeKind → Prop} (inline : Bool) {ts : List MarkupTree}
    (h : ∀ t ∈ ts, ∀ n ∈ toNodes s inline t, p n.kind ∧ n.Regular) :
    ∀ n ∈ toNodesList s inline ts, p n.kind ∧ n.Regular := by
  rw [toNodesList_eq_flatMap]
  exact List.forall_mem_flatMap.mpr h

/-- The item that a tree gives in a list. -/
def itemNode (attributes : ListAttributes) (t : MarkupTree) : Node :=
  match t.checked? with
  | some checked => Node.taskItem checked (contentNodes s false t)
  | none =>
    Node.listItem ⟨attributes.listType, attributes.start, attributes.bulletChar⟩
      (contentNodes s false t)

theorem itemNodes_eq_map (attributes : ListAttributes) :
    (ts : List MarkupTree) → itemNodes s attributes ts = ts.map (itemNode s attributes)
  | [] => by rw [itemNodes, List.map_nil]
  | t :: ts => by
    rw [itemNodes, itemNodes_eq_map attributes ts]
    rfl

theorem cellNodes_eq_map :
    (ts : List MarkupTree) →
      cellNodes s ts = ts.map fun t => Node.ofContainer .tableCell (contentNodes s true t)
  | [] => by rw [cellNodes, List.map_nil]
  | t :: ts => by rw [cellNodes, cellNodes_eq_map ts, List.map_cons]

/-- The rows of a table, where only the first can be the header. -/
theorem rowNodes_eq_mapIdx (columns : Nat) (header : Bool) (ts : List MarkupTree) :
    rowNodes s columns header ts =
      ts.mapIdx fun i t => Node.tableRow (header && i == 0) (padRow columns (cellsOf s t)) := by
  induction ts generalizing header with
  | nil => rw [rowNodes, List.mapIdx_nil]
  | cons t ts ih => simp [rowNodes, ih, List.mapIdx_cons]

theorem length_cellsOf (t : MarkupTree) : (cellsOf s t).length = t.children.length := by
  cases t <;> simp [cellsOf, cellNodes_eq_map, children]

theorem kind_itemNode (attributes : ListAttributes) (t : MarkupTree) :
    (itemNode s attributes t).kind = if t.checked?.isSome then .taskItem else .listItem := by
  unfold itemNode
  cases t.checked? <;> rfl

/-- A list says rightly of which type its items are and whether there are tasks among them. -/
theorem describes_itemNodes {attributes : ListAttributes} {ts : List MarkupTree}
    (htasks : attributes.isTaskList = ts.any fun t => t.checked?.isSome) :
    attributes.Describes (itemNodes s attributes ts) where
  listType_eq := by
    intro f b ns hmem
    rw [itemNodes_eq_map] at hmem
    obtain ⟨t, -, ht⟩ := List.mem_map.mp hmem
    unfold itemNode at ht
    split at ht <;> cases ht
    rfl
  isTaskList_iff := by
    rw [htasks, itemNodes_eq_map, List.any_eq_true]
    constructor
    · rintro ⟨t, ht, hchecked⟩
      exact ⟨_, List.mem_map_of_mem ht, by rw [kind_itemNode, if_pos hchecked]⟩
    · rintro ⟨item, hitem, hkind⟩
      obtain ⟨t, ht, rfl⟩ := List.mem_map.mp hitem
      refine ⟨t, ht, ?_⟩
      rw [kind_itemNode] at hkind
      split at hkind
      · assumption
      · cases hkind

theorem widestRow_le_iff {ts : List MarkupTree} {k : Nat} :
    widestRow ts ≤ k ↔ ∀ t ∈ ts, t.children.length ≤ k := by
  rw [widestRow, Node.foldl_max_le_iff, and_iff_right (Nat.zero_le k)]

/-- A table says rightly how many rows and cells it has, if there are columns enough for all of
them. -/
theorem describes_rowNodes {columns : List Alignment} {ts : List MarkupTree}
    (hwide : widestRow ts ≤ columns.length) :
    TableAttributes.Describes
      ⟨columns, columns.length, (rowNodes s columns.length true ts).length⟩
      (rowNodes s columns.length true ts) where
  numRows_eq := rfl
  length_alignments := rfl
  cells_eq := by
    intro row hrow
    rw [rowNodes_eq_mapIdx] at hrow
    obtain ⟨i, hi, rfl⟩ := List.mem_mapIdx.mp hrow
    have hcells : (cellsOf s ts[i]).length ≤ columns.length := by
      rw [length_cellsOf]
      exact widestRow_le_iff.mp hwide _ (List.getElem_mem hi)
    simp only [Node.tableRow, Node.ofContainer, Node.children, padRow, List.length_append,
      List.length_replicate]
    omega
  header_iff := by
    intro i f header cells hrow
    rw [rowNodes_eq_mapIdx, List.getElem?_mapIdx, Option.map_eq_some_iff] at hrow
    obtain ⟨t, -, ht⟩ := hrow
    obtain ⟨-, hheader, -⟩ := Node.branch.inj ht
    rw [← Container.tableRow.inj hheader]
    simp

theorem regular_itemNode (attributes : ListAttributes) {t : MarkupTree}
    (h : ∀ n ∈ contentNodes s false t, n.kind.category = .block ∧ n.Regular) :
    (itemNode s attributes t).Regular := by
  unfold itemNode
  split <;> exact regular_of_held? rfl h

/-- A list is regular if what its items hold is. -/
theorem regular_list {attributes : ListAttributes} {ts : List MarkupTree}
    (htasks : attributes.isTaskList = ts.any fun t => t.checked?.isSome)
    (h : ∀ t ∈ ts, ∀ n ∈ contentNodes s false t, n.kind.category = .block ∧ n.Regular) :
    (Node.list attributes (itemNodes s attributes ts)).Regular := by
  refine Node.regular_ofContainer (by simp) ?_ (describes_itemNodes s htasks) ?_
  · rw [itemNodes_eq_map, List.forall_mem_map]
    intro t _
    rw [kind_itemNode]
    split <;> rfl
  · rw [itemNodes_eq_map, List.forall_mem_map]
    exact fun t ht => regular_itemNode s attributes (h t ht)

/-- A row is regular if its cells are; those it lacks are empty. -/
theorem regular_row (header : Bool) (columns : Nat) {cells : List Node}
    (h : ∀ n ∈ cells, n.kind = .tableCell ∧ n.Regular) :
    (Node.tableRow header (padRow columns cells)).Regular := by
  have hcells : ∀ n ∈ padRow columns cells, n.kind = .tableCell ∧ n.Regular := by
    refine List.forall_mem_append.mpr ⟨h, fun n hn => ?_⟩
    rw [List.eq_of_mem_replicate hn]
    exact ⟨rfl, regular_of_held? rfl (by simp)⟩
  refine Node.regular_ofContainer (by simp) (fun n hn => ?_) trivial fun n hn => (hcells n hn).2
  rw [(hcells n hn).1]
  rfl

/-- A table is regular if its cells are and there are columns enough for all of them. -/
theorem regular_table {columns : List Alignment} {ts : List MarkupTree}
    (hwide : widestRow ts ≤ columns.length)
    (h : ∀ t ∈ ts, ∀ n ∈ cellsOf s t, n.kind = .tableCell ∧ n.Regular) :
    (Node.table (rowNodes s columns.length true ts) (some columns)).Regular := by
  refine Node.regular_ofContainer (by simp) (fun n hn => ?_) (describes_rowNodes s hwide)
    fun n hn => ?_
  all_goals
    rw [rowNodes_eq_mapIdx] at hn
    obtain ⟨i, hi, rfl⟩ := List.mem_mapIdx.mp hn
  · rfl
  · exact regular_row _ _ (h _ (List.getElem_mem hi))

/-! ### Trees -/

mutual

/-- A tree gives regular nodes of the sort that its place asks for. -/
theorem regular_of_isContent : {k : MarkupContent} → {t : MarkupTree} → t.isContent k = true →
    ∀ n ∈ t.nodesAs s k, k.Gives n.kind ∧ n.Regular
  | k, leaf span l, h => by
    cases k with
    | flow => exact l.regular_flow s _ h
    | phrasing => exact l.regular_phrasing s _ h
    | items | rows | cells => simp [nodesAs, contentNodes, cellsOf]
  | k, branch span b ts, h => by
    rw [isContent, Bool.and_eq_true] at h
    obtain ⟨hb, hts⟩ := h
    cases b with
    | paragraph | heading =>
      obtain rfl : k = .flow := of_decide_eq_true hb
      have hinlines := regular_toNodesList s true (regular_of_areContent hts)
      exact List.forall_mem_singleton.mpr ⟨rfl, regular_of_held? rfl hinlines⟩
    | blockquote | footnoteDefinition =>
      obtain rfl : k = .flow := of_decide_eq_true hb
      have hblocks := regular_toNodesList s false (regular_of_areContent hts)
      exact List.forall_mem_singleton.mpr ⟨rfl, regular_of_held? rfl hblocks⟩
    | emphasis | strong | delete | link | linkReference =>
      obtain rfl : k = .phrasing := of_decide_eq_true hb
      have hinlines := regular_toNodesList s true (regular_of_areContent hts)
      exact List.forall_mem_singleton.mpr ⟨rfl, regular_of_held? rfl hinlines⟩
    | list ordered start spread =>
      obtain rfl : k = .flow := of_decide_eq_true hb
      exact List.forall_mem_singleton.mpr ⟨rfl, regular_list s rfl (regular_of_areContent hts)⟩
    | table alignments =>
      obtain rfl : k = .flow := of_decide_eq_true hb
      refine List.forall_mem_singleton.mpr ⟨rfl, regular_table s ?_ (regular_of_areContent hts)⟩
      simp only [List.length_append, List.length_replicate]
      omega
    | listItem =>
      obtain rfl : k = .items := of_decide_eq_true hb
      exact regular_toNodesList s false (regular_of_areContent hts)
    | tableRow =>
      obtain rfl : k = .rows := of_decide_eq_true hb
      intro n hn
      rw [nodesAs, cellsOf, cellNodes_eq_map] at hn
      obtain ⟨t, ht, rfl⟩ := List.mem_map.mp hn
      exact ⟨rfl, regular_of_held? rfl (regular_of_areContent hts t ht)⟩
    | tableCell =>
      obtain rfl : k = .cells := of_decide_eq_true hb
      exact regular_toNodesList s true (regular_of_areContent hts)
    | unknown =>
      rcases of_decide_eq_true hb with rfl | rfl <;> simp [nodesAs, toNodes]

/-- Siblings give regular nodes of the sort that their place asks for. -/
theorem regular_of_areContent :
    {k : MarkupContent} → {ts : List MarkupTree} → areContent k ts = true →
    ∀ t ∈ ts, ∀ n ∈ t.nodesAs s k, k.Gives n.kind ∧ n.Regular
  | k, [], _ => by simp
  | k, t :: ts, h => by
    rw [areContent, Bool.and_eq_true] at h
    exact List.forall_mem_cons.mpr ⟨regular_of_isContent h.1, regular_of_areContent h.2⟩

end

end MarkupTree

/-- The document of a text is well-formed if its markup is: blocks stand at its root, nothing breaks
the content model, no node carries flags, and lists and tables say rightly what they hold. -/
theorem documentNodes_wellFormed (source : String) {trees : List MarkupTree}
    (h : MarkupTree.areContent .flow trees = true) :
    (∀ n ∈ documentNodes source trees, n.kind.category = .block) ∧
      (Document.ofNodes (documentNodes source trees)).toNode.violations = [] ∧
      ∀ n ∈ documentNodes source trees, ∀ m ∈ n.preorder, m.flags = .none ∧ m.Described := by
  let s : Source := ⟨source.toList, MarkupTree.definitionsList trees⟩
  have hnodes : ∀ n ∈ documentNodes source trees, n.kind.category = .block ∧ n.Regular :=
    MarkupTree.regular_toNodesList s false (MarkupTree.regular_of_areContent s h)
  refine ⟨fun n hn => (hnodes n hn).1, Document.violations_ofNodes fun n hn => (hnodes n hn).2, ?_⟩
  intro n hn m hm
  have hregular := (hnodes n hn).2 m hm
  exact ⟨hregular.flags_eq, hregular.described⟩

/-- HTML in a paragraph and in a quote, a list of one task and one plain item, a table with a short
row and fewer alignments than columns, and two trees that give no nodes. -/
theorem documentNodes_wellFormed_ragged_table :
    let cell := MarkupTree.branch none .tableCell [.leaf none (.text "a")]
    let trees : List MarkupTree :=
      [.branch none .paragraph [.leaf none (.html "<b>"), .leaf none (.text "a\nb")],
        .branch none .blockquote
          [.leaf none (.html "<p>"),
            .branch none (.list false none false)
              [.branch none (.listItem (some true)) [.branch none .paragraph []],
                .branch none (.listItem none) []]],
        .branch none (.table [.left]) [.branch none .tableRow [cell, cell],
          .branch none .tableRow []],
        .leaf none (.definition "d" "u" none), .branch none .unknown [.leaf none .lineBreak]]
    let nodes := documentNodes "- a" trees
    MarkupTree.areContent .flow trees = true ∧
      nodes.map Node.kind = [.paragraph, .blockQuote, .table] ∧
      (∀ n ∈ nodes, n.kind.category = .block) ∧ (Document.ofNodes nodes).toNode.violations = [] ∧
      ∀ n ∈ nodes, ∀ m ∈ n.preorder, m.flags = .none ∧ m.Described := by
  intro cell trees nodes
  have htrees : MarkupTree.areContent .flow trees = true := by decide
  exact ⟨htrees, by decide, documentNodes_wellFormed "- a" htrees⟩

end LiveMarkdown
