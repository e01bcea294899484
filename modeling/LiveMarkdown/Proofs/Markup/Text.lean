import LiveMarkdown.Proofs.Completion.Lines
import LiveMarkdown.Proofs.Markup.WellFormed
import LiveMarkdown.Proofs.Node.Preorder

/-!
# The text of markup

No text is lost between a markup tree and its document: a line feed in a text becomes a soft break,
which counts as a line feed again, a short row gets cells without text, and a definition has none.
Only an item outside a list, a row outside a table and a cell outside a row give no nodes, wherever
they stand, so that their text is missing. The root of a tree may hold such parts.

## Main definitions

* `MarkupTree.plainText`: the text of a markup tree.
* `MarkupTree.isTyped`: lists hold items, tables rows, and rows cells.
* `MarkupTree.settled`: a tree without the parts that stand outside their containers.
* `Node.IsLine`, `Node.HoldsLines`: a text is not empty and holds no line feed, and so are the texts
  in a node.

## Main results

* `textContentList_textNodes`: a text that is cut at its line feeds keeps them.
* `MarkupTree.textContentList_nodesAs`: a tree gives nodes with its text.
* `MarkupTree.inLines_nodesAs`: the texts that a tree gives are lines.
* `documentNodes_keep_text`: the text of a document.
-/

namespace LiveMarkdown

/-! ### The text of a markup tree -/

/-- The text of a leaf. A code block ends with a line feed, unless it is empty. -/
def MarkupLeaf.plainText : MarkupLeaf → String
  | code _ _ value => if value.isEmpty then "" else value ++ "\n"
  | html value | math value | text value | inlineCode value | inlineMath value => value
  | lineBreak => "\n"
  | image _ _ alt | imageReference _ alt => alt.getD ""
  | thematicBreak | yaml _ | definition _ _ _ | footnoteReference _ _ => ""

namespace MarkupTree

mutual

/-- The text of a tree. Types without a meaning have none. -/
def plainText : MarkupTree → String
  | leaf _ l => l.plainText
  | branch _ .unknown _ => ""
  | branch _ _ ts => plainTextList ts

/-- The text of siblings. -/
def plainTextList : List MarkupTree → String
  | [] => ""
  | t :: ts => plainText t ++ plainTextList ts

end

end MarkupTree

/-! ### Parts and their containers -/

/-- What is no content of its own, but part of a list, a table or a row. -/
inductive MarkupPart where
  | item
  | row
  | cell
  deriving DecidableEq, Repr

/-- The part that a node with children is, if it is one. -/
def MarkupBranch.part? : MarkupBranch → Option MarkupPart
  | listItem _ => some .item
  | tableRow => some .row
  | tableCell => some .cell
  | _ => none

/-- The parts that a node consists of, if it consists of parts. -/
def MarkupBranch.parts? : MarkupBranch → Option MarkupPart
  | list _ _ _ => some .item
  | table _ => some .row
  | tableRow => some .cell
  | _ => none

namespace MarkupTree

/-- The part that a tree is, if it is one. -/
def part? : MarkupTree → Option MarkupPart
  | leaf _ _ => none
  | branch _ b _ => b.part?

mutual

/-- Whether everything in a tree that consists of parts holds no other nodes than these. Types
without a meaning may hold anything. -/
def isTyped : MarkupTree → Bool
  | leaf _ _ => true
  | branch _ .unknown _ => true
  | branch _ b ts => areTyped b.parts? ts

/-- Whether siblings are the given parts, if any are given, and everything in them is typed. -/
def areTyped (parts : Option MarkupPart) : List MarkupTree → Bool
  | [] => true
  | t :: ts => (parts.isNone || t.part? == parts) && isTyped t && areTyped parts ts

end

mutual

/-- The tree without the parts in it that stand outside their containers. -/
def settled : MarkupTree → MarkupTree
  | leaf span l => leaf span l
  | branch span b ts => branch span b (settledList b.parts? ts)

/-- Siblings without the parts that stand outside their containers. Here `parts` are the parts that
the container of the siblings consists of. -/
def settledList (parts : Option MarkupPart) : List MarkupTree → List MarkupTree
  | [] => []
  | t :: ts => if t.part? = parts then settled t :: settledList parts ts else settledList parts ts

end

end MarkupTree

/-! ### The text of nodes -/

namespace Node

@[simp]
theorem textContentList_append (ns ms : List Node) :
    textContentList (ns ++ ms) = textContentList ns ++ textContentList ms := by
  induction ns with
  | nil => simp [textContentList]
  | cons n ns ih => rw [List.cons_append, textContentList, textContentList, ih, String.append_assoc]

@[simp]
theorem textContentList_singleton (n : Node) : textContentList [n] = n.textContent := by
  rw [textContentList, textContentList, String.append_empty]

@[simp]
theorem textContent_ofContainer (c : Container) (ns : List Node) :
    (ofContainer c ns).textContent = textContentList ns := by
  rw [ofContainer, textContent]

end Node

/-- The lines of a text, with line feeds between them, are the text. -/
theorem append_flatMap_of_splitLines {cs first : List Char} {rest : List (List Char)}
    (h : splitLines cs = first :: rest) : first ++ rest.flatMap ('\n' :: ·) = cs := by
  induction cs generalizing first rest with
  | nil =>
    obtain ⟨rfl, rfl⟩ := List.cons.inj h
    rfl
  | cons c cs ih =>
    obtain ⟨line, lines, hlines⟩ := List.exists_cons_of_ne_nil (splitLines_ne_nil cs)
    by_cases hc : c = '\n'
    · subst hc
      rw [splitLines, hlines] at h
      obtain ⟨rfl, rfl⟩ := List.cons.inj h
      rw [List.nil_append, List.flatMap_cons, List.cons_append, ih hlines]
    · rw [splitLines_cons_of_ne hc hlines] at h
      obtain ⟨rfl, rfl⟩ := List.cons.inj h
      rw [List.cons_append, ih hlines]

theorem newline_not_mem_of_mem_splitLines {cs line : List Char} (h : line ∈ splitLines cs) :
    '\n' ∉ line :=
  fun hmem => (forall_mem_of_mem_splitLines h _ hmem).2 rfl

/-- The text of one line, as nodes. -/
def lineNodes (cs : List Char) : List Node :=
  if cs.isEmpty then [] else [Node.text (String.ofList cs)]

theorem textNodes_eq {value : String} {first : List Char} {rest : List (List Char)}
    (h : splitLines value.toList = first :: rest) :
    textNodes value = lineNodes first ++ rest.flatMap fun cs =>
      Node.ofLeaf .softBreak :: lineNodes cs := by
  unfold textNodes
  rw [h]
  rfl

theorem textContentList_lineNodes (cs : List Char) :
    Node.textContentList (lineNodes cs) = String.ofList cs := by
  unfold lineNodes
  split
  · rename_i hnil
    rw [List.isEmpty_iff.mp hnil]
    rfl
  · rw [Node.textContentList_singleton]
    rfl

/-- A text that is cut at its line feeds keeps them. -/
theorem textContentList_textNodes (value : String) :
    Node.textContentList (textNodes value) = value := by
  obtain ⟨first, rest, hlines⟩ := List.exists_cons_of_ne_nil (splitLines_ne_nil value.toList)
  have hrest : ∀ lines : List (List Char),
      Node.textContentList (lines.flatMap fun cs => Node.ofLeaf .softBreak :: lineNodes cs) =
        String.ofList (lines.flatMap ('\n' :: ·)) := by
    intro lines
    induction lines with
    | nil => rfl
    | cons cs lines ih =>
      rw [List.flatMap_cons, List.flatMap_cons, Node.textContentList_append, ih,
        Node.textContentList, textContentList_lineNodes, List.cons_append, String.ofList_cons,
        String.ofList_append]
      rfl
  rw [textNodes_eq hlines, Node.textContentList_append, textContentList_lineNodes, hrest,
    ← String.ofList_append, append_flatMap_of_splitLines hlines, String.ofList_toList]

theorem textContentList_altNodes (alt : Option String) :
    Node.textContentList (altNodes alt) = alt.getD "" := by
  cases alt with
  | none => rfl
  | some value =>
    by_cases hvalue : value.isEmpty = true
    · obtain rfl := String.isEmpty_iff.mp hvalue
      rfl
    · rw [altNodes, nonEmpty?, Option.filter_some_pos (by simpa using hvalue),
        Node.textContentList_singleton]
      rfl

/-- A leaf gives nodes with its text. -/
theorem MarkupLeaf.textContentList_toNodes (s : Source) (inline : Bool) (slice : List Char)
    (l : MarkupLeaf) :
    Node.textContentList (l.toNodes s inline slice) = l.plainText := by
  cases l with
  | text value => exact textContentList_textNodes value
  | code lang info value =>
    rw [toNodes, Node.textContentList_singleton, codeNode]
    split <;> rfl
  | html value =>
    rw [toNodes, Node.textContentList_singleton]
    split <;> rfl
  | image _ _ alt | imageReference _ alt =>
    rw [toNodes, Node.textContentList_singleton, Node.textContent_ofContainer,
      textContentList_altNodes]
    rfl
  | definition => rfl
  | _ =>
    rw [toNodes, Node.textContentList_singleton]
    rfl

/-! ### The text of trees -/

/-- The parts that a place holds, if it holds parts. -/
def MarkupContent.part? : MarkupContent → Option MarkupPart
  | flow | phrasing => none
  | items => some .item
  | rows => some .row
  | cells => some .cell

namespace MarkupTree

variable (s : Source)

theorem textContentList_map_eq_flatMap {f : MarkupTree → Node} {g : MarkupTree → List Node}
    (h : ∀ t, (f t).textContent = Node.textContentList (g t)) (ts : List MarkupTree) :
    Node.textContentList (ts.map f) = Node.textContentList (ts.flatMap g) := by
  induction ts with
  | nil => rfl
  | cons t ts ih =>
    rw [List.map_cons, List.flatMap_cons, Node.textContentList, Node.textContentList_append, h, ih]

theorem textContent_itemNode (attributes : ListAttributes) (t : MarkupTree) :
    (itemNode s attributes t).textContent = Node.textContentList (contentNodes s false t) := by
  unfold itemNode
  split <;> exact Node.textContent_ofContainer _ _

/-- The cells that a row lacks have no text. -/
theorem textContentList_padRow (columns : Nat) (cells : List Node) :
    Node.textContentList (padRow columns cells) = Node.textContentList cells := by
  have hempty (n : Nat) :
      Node.textContentList (List.replicate n (Node.ofContainer .tableCell [])) = "" := by
    induction n with
    | zero => rfl
    | succ n ih =>
      rw [List.replicate_succ, Node.textContentList, ih, Node.textContent_ofContainer]
      rfl
  rw [padRow, Node.textContentList_append, hempty, String.append_empty]

theorem textContentList_rowNodes (columns : Nat) (header : Bool) (ts : List MarkupTree) :
    Node.textContentList (rowNodes s columns header ts) =
      Node.textContentList (ts.flatMap (cellsOf s)) := by
  induction ts generalizing header with
  | nil => rw [rowNodes, List.flatMap_nil]
  | cons t ts ih =>
    rw [rowNodes, Node.textContentList, ih, Node.tableRow, Node.textContent_ofContainer,
      textContentList_padRow, List.flatMap_cons, Node.textContentList_append]

/-- Where no parts stand, trees give the nodes that they give among blocks or among inlines. -/
theorem exists_nodesAs_eq_toNodes {k : MarkupContent} (h : k.part? = none) :
    ∃ inline : Bool, nodesAs s k = toNodes s inline := by
  cases k with
  | flow => exact ⟨false, rfl⟩
  | phrasing => exact ⟨true, rfl⟩
  | items | rows | cells => cases h

/-- A node with children gives the text that its children give in it, if it stands where it
belongs. -/
theorem textContentList_nodesAs_branch {k : MarkupContent} {b : MarkupBranch}
    (hpart : b.part? = k.part?) (hb : b ≠ .unknown) (span : Option Span) (ts : List MarkupTree) :
    ∃ content : MarkupContent, content.part? = b.parts? ∧
      Node.textContentList ((branch span b ts).nodesAs s k) =
        Node.textContentList (ts.flatMap (nodesAs s content)) := by
  have hflow : toNodesList s false ts = ts.flatMap (nodesAs s .flow) :=
    toNodesList_eq_flatMap s false ts
  have hphrasing : toNodesList s true ts = ts.flatMap (nodesAs s .phrasing) :=
    toNodesList_eq_flatMap s true ts
  cases b with
  | paragraph | heading | emphasis | strong | delete | link | linkReference =>
    obtain ⟨inline, hinline⟩ := exists_nodesAs_eq_toNodes s hpart.symm
    refine ⟨.phrasing, rfl, ?_⟩
    rw [hinline, toNodes, Node.textContentList_singleton, hphrasing]
    exact Node.textContent_ofContainer _ _
  | blockquote | footnoteDefinition =>
    obtain ⟨inline, hinline⟩ := exists_nodesAs_eq_toNodes s hpart.symm
    refine ⟨.flow, rfl, ?_⟩
    rw [hinline, toNodes, Node.textContentList_singleton, hflow]
    exact Node.textContent_ofContainer _ _
  | list =>
    obtain ⟨inline, hinline⟩ := exists_nodesAs_eq_toNodes s hpart.symm
    refine ⟨.items, rfl, ?_⟩
    rw [hinline, toNodes, Node.textContentList_singleton, itemNodes_eq_map]
    exact (Node.textContent_ofContainer _ _).trans
      (textContentList_map_eq_flatMap (textContent_itemNode s _) ts)
  | table =>
    obtain ⟨inline, hinline⟩ := exists_nodesAs_eq_toNodes s hpart.symm
    refine ⟨.rows, rfl, ?_⟩
    rw [hinline, toNodes, Node.textContentList_singleton]
    exact (Node.textContent_ofContainer _ _).trans (textContentList_rowNodes s _ _ ts)
  | listItem =>
    refine ⟨.flow, rfl, ?_⟩
    cases k <;> cases hpart
    rw [nodesAs, contentNodes, hflow]
  | tableRow =>
    refine ⟨.cells, rfl, ?_⟩
    cases k <;> cases hpart
    rw [nodesAs, cellsOf, cellNodes_eq_map]
    exact textContentList_map_eq_flatMap (fun t => Node.textContent_ofContainer _ _) ts
  | tableCell =>
    refine ⟨.phrasing, rfl, ?_⟩
    cases k <;> cases hpart
    rw [nodesAs, contentNodes, hphrasing]
  | unknown => exact absurd rfl hb

theorem plainText_branch {b : MarkupBranch} (hb : b ≠ .unknown) (span : Option Span)
    (ts : List MarkupTree) :
    (branch span b ts).plainText = plainTextList ts := by
  rw [plainText]
  exact hb

theorem isTyped_branch {b : MarkupBranch} (hb : b ≠ .unknown) (span : Option Span)
    (ts : List MarkupTree) :
    (branch span b ts).isTyped = areTyped b.parts? ts := by
  rw [isTyped]
  exact hb

/-- What is a part gives no nodes where none of its kind stands. -/
theorem nodesAs_of_part?_ne {k : MarkupContent} {t : MarkupTree} (hk : k.part? = none)
    (ht : t.part? ≠ none) :
    t.nodesAs s k = [] := by
  obtain ⟨inline, hinline⟩ := exists_nodesAs_eq_toNodes s hk
  rw [hinline]
  cases t with
  | leaf => exact absurd rfl ht
  | branch span b ts =>
    cases b with
    | listItem | tableRow | tableCell => rw [toNodes]
    | _ => exact absurd rfl ht

mutual

/-- A tree that stands where it belongs gives nodes with its text, without the parts in it that do
not. -/
theorem textContentList_nodesAs {k : MarkupContent} :
    {t : MarkupTree} → t.part? = k.part? → t.isTyped = true →
    Node.textContentList (t.nodesAs s k) = t.settled.plainText
  | leaf span l, hpart, _ => by
    obtain ⟨inline, hinline⟩ := exists_nodesAs_eq_toNodes s hpart.symm
    rw [hinline, toNodes, settled, plainText]
    exact l.textContentList_toNodes s inline _
  | branch span b ts, hpart, htyped => by
    by_cases hb : b = .unknown
    · subst hb
      obtain ⟨inline, hinline⟩ := exists_nodesAs_eq_toNodes s hpart.symm
      rw [hinline, toNodes, settled, plainText]
      rfl
    · obtain ⟨content, hcontent, htext⟩ := textContentList_nodesAs_branch s hpart hb span ts
      rw [isTyped_branch hb, ← hcontent] at htyped
      rw [htext, textContentList_flatMap_nodesAs htyped, settled, plainText_branch hb, hcontent]

/-- Siblings give nodes with their text, without the parts among them that stand outside their
containers. -/
theorem textContentList_flatMap_nodesAs {k : MarkupContent} : {ts : List MarkupTree} →
    areTyped k.part? ts = true →
    Node.textContentList (ts.flatMap (nodesAs s k)) = plainTextList (settledList k.part? ts)
  | [], _ => rfl
  | t :: ts, h => by
    rw [areTyped, Bool.and_eq_true, Bool.and_eq_true] at h
    obtain ⟨⟨hpart, ht⟩, hts⟩ := h
    rw [List.flatMap_cons, Node.textContentList_append, textContentList_flatMap_nodesAs hts,
      settledList]
    by_cases hstands : t.part? = k.part?
    · rw [if_pos hstands, plainTextList, textContentList_nodesAs hstands ht]
    · -- only where no parts are asked for may something else stand
      have hk : k.part? = none := by simpa [hstands] using hpart
      rw [if_neg hstands, nodesAs_of_part?_ne s hk (hk ▸ hstands), Node.textContentList,
        String.empty_append]

end

/-! ### Trees that keep to the content model -/

theorem part?_of_isContent {k : MarkupContent} {t : MarkupTree} (h : t.isContent k = true) :
    t.part? = k.part? := by
  cases t with
  | leaf span l =>
    rw [isContent] at h
    cases l <;> cases k <;> first | rfl | cases h
  | branch span b ts =>
    rw [isContent, Bool.and_eq_true] at h
    cases b <;> cases k <;> first | rfl | cases h.1

mutual

/-- In a tree that keeps to the content model of markup, all parts stand in their containers. -/
theorem plainText_settled_of_isContent {k : MarkupContent} :
    {t : MarkupTree} → t.isContent k = true → t.isTyped = true ∧ t.settled.plainText = t.plainText
  | leaf span l, _ => by simp [isTyped, settled]
  | branch span b ts, h => by
    by_cases hb : b = .unknown
    · subst hb
      simp [isTyped, settled, plainText]
    · rw [isContent, Bool.and_eq_true] at h
      obtain ⟨content, hcontent, hparts⟩ : ∃ content, b.content? = some content ∧
          content.part? = b.parts? := by
        cases b <;> first | exact ⟨_, rfl, rfl⟩ | exact absurd rfl hb
      rw [hcontent] at h
      obtain ⟨htyped, htext⟩ := plainTextList_settledList_of_areContent h.2
      rw [isTyped_branch hb, settled, plainText_branch hb, plainText_branch hb, ← hparts]
      exact ⟨htyped, htext⟩

/-- Among siblings that keep to the content model of markup, all parts stand in their containers. -/
theorem plainTextList_settledList_of_areContent {k : MarkupContent} : {ts : List MarkupTree} →
    areContent k ts = true →
    areTyped k.part? ts = true ∧ plainTextList (settledList k.part? ts) = plainTextList ts
  | [], _ => ⟨rfl, rfl⟩
  | t :: ts, h => by
    rw [areContent, Bool.and_eq_true] at h
    have hpart := part?_of_isContent h.1
    obtain ⟨ht, htext⟩ := plainText_settled_of_isContent h.1
    obtain ⟨hts, htexts⟩ := plainTextList_settledList_of_areContent h.2
    rw [areTyped, settledList, if_pos hpart, plainTextList, plainTextList, htext, htexts, ht,
      hts, hpart]
    simp

end

end MarkupTree

/-! ### Texts are lines -/

namespace Node

/-- Whether a node, if it is a text, is one line: it is not empty and holds no line feed. -/
def IsLine : Node → Prop
  | leaf _ (.text literal) => literal ≠ "" ∧ '\n' ∉ literal.toList
  | _ => True

/-- Whether the texts among the children of a node are lines. What describes an image is no text of
the document, it may be anything. -/
def HoldsLines : Node → Prop
  | leaf _ _ => True
  | branch _ (.image _ _) _ => True
  | branch _ _ children => ∀ n ∈ children, n.IsLine

/-- Whether the texts in a tree are lines. -/
def InLines (n : Node) : Prop := n.IsLine ∧ ∀ m ∈ n.preorder, m.HoldsLines

theorem inLines_leaf {f : NodeFlags} {l : Leaf} (h : (leaf f l).IsLine) : (leaf f l).InLines := by
  refine ⟨h, ?_⟩
  rw [preorder_leaf]
  exact List.forall_mem_singleton.mpr trivial

theorem inLines_ofContainer (c : Container) {ns : List Node} (h : ∀ n ∈ ns, n.InLines) :
    (ofContainer c ns).InLines := by
  refine ⟨trivial, forall_mem_preorder_branch.mpr ⟨?_, fun n hn => (h n hn).2⟩⟩
  cases c with
  | image => trivial
  | _ => exact fun n hn => (h n hn).1

/-- The text by which an image is described need not be a line. -/
theorem inLines_image (url title : String) (alt : Option String) :
    (ofContainer (.image url title) (altNodes alt)).InLines := by
  refine ⟨trivial, forall_mem_preorder_branch.mpr ⟨trivial, ?_⟩⟩
  unfold altNodes
  split
  · rw [List.forall_mem_singleton, text, ofLeaf, preorder_leaf]
    exact List.forall_mem_singleton.mpr trivial
  · exact List.forall_mem_nil _

end Node

theorem inLines_lineNodes {cs : List Char} (h : '\n' ∉ cs) : ∀ n ∈ lineNodes cs, n.InLines := by
  unfold lineNodes
  split
  · exact List.forall_mem_nil _
  · rename_i hcs
    refine List.forall_mem_singleton.mpr (Node.inLines_leaf ⟨fun hempty => hcs ?_, ?_⟩)
    · rw [List.isEmpty_iff]
      exact String.ofList_eq_empty_iff.mp hempty
    · rwa [String.toList_ofList]

theorem inLines_textNodes (value : String) : ∀ n ∈ textNodes value, n.InLines := by
  obtain ⟨first, rest, hlines⟩ := List.exists_cons_of_ne_nil (splitLines_ne_nil value.toList)
  have hline : ∀ line ∈ first :: rest, ∀ n ∈ lineNodes line, n.InLines := fun line hmem =>
    inLines_lineNodes (newline_not_mem_of_mem_splitLines (hlines ▸ hmem))
  obtain ⟨hfirst, hrest⟩ := List.forall_mem_cons.mp hline
  rw [textNodes_eq hlines, List.forall_mem_append, List.forall_mem_flatMap]
  exact ⟨hfirst, fun cs hcs => List.forall_mem_cons.mpr ⟨Node.inLines_leaf trivial, hrest cs hcs⟩⟩

theorem MarkupLeaf.inLines_toNodes (s : Source) (inline : Bool) (slice : List Char)
    (l : MarkupLeaf) :
    ∀ n ∈ l.toNodes s inline slice, n.InLines := by
  cases l with
  | text value => exact inLines_textNodes value
  | code lang info value =>
    obtain ⟨block, hblock⟩ := exists_codeNode_eq slice lang info value
    rw [toNodes, hblock]
    exact List.forall_mem_singleton.mpr (Node.inLines_leaf trivial)
  | html value =>
    rw [toNodes]
    split <;> exact List.forall_mem_singleton.mpr (Node.inLines_leaf trivial)
  | image | imageReference => exact List.forall_mem_singleton.mpr (Node.inLines_image _ _ _)
  | definition => exact List.forall_mem_nil _
  | _ => exact List.forall_mem_singleton.mpr (Node.inLines_leaf trivial)

namespace MarkupTree

variable (s : Source)

theorem inLines_itemNode (attributes : ListAttributes) {t : MarkupTree}
    (h : ∀ n ∈ contentNodes s false t, n.InLines) : (itemNode s attributes t).InLines := by
  unfold itemNode
  split <;> exact Node.inLines_ofContainer _ h

theorem inLines_row (header : Bool) (columns : Nat) {cells : List Node}
    (h : ∀ n ∈ cells, n.InLines) :
    (Node.tableRow header (padRow columns cells)).InLines := by
  refine Node.inLines_ofContainer _ (List.forall_mem_append.mpr ⟨h, fun n hn => ?_⟩)
  rw [List.eq_of_mem_replicate hn]
  exact Node.inLines_ofContainer _ (List.forall_mem_nil _)

theorem inLines_toNodes_branch (inline : Bool) {span : Option Span} {b : MarkupBranch}
    {ts : List MarkupTree} (h : ∀ k, ∀ t ∈ ts, ∀ n ∈ t.nodesAs s k, n.InLines) :
    ∀ n ∈ toNodes s inline (branch span b ts), n.InLines := by
  have hflow : ∀ n ∈ toNodesList s false ts, n.InLines := by
    rw [toNodesList_eq_flatMap]
    exact List.forall_mem_flatMap.mpr (h .flow)
  have hphrasing : ∀ n ∈ toNodesList s true ts, n.InLines := by
    rw [toNodesList_eq_flatMap]
    exact List.forall_mem_flatMap.mpr (h .phrasing)
  cases b with
  | paragraph | heading | emphasis | strong | delete | link | linkReference =>
    exact List.forall_mem_singleton.mpr (Node.inLines_ofContainer _ hphrasing)
  | blockquote | footnoteDefinition =>
    exact List.forall_mem_singleton.mpr (Node.inLines_ofContainer _ hflow)
  | list =>
    refine List.forall_mem_singleton.mpr (Node.inLines_ofContainer _ ?_)
    rw [itemNodes_eq_map, List.forall_mem_map]
    exact fun t ht => inLines_itemNode s _ (h .items t ht)
  | table =>
    refine List.forall_mem_singleton.mpr (Node.inLines_ofContainer _ fun n hn => ?_)
    rw [rowNodes_eq_mapIdx] at hn
    obtain ⟨i, hi, rfl⟩ := List.mem_mapIdx.mp hn
    exact inLines_row _ _ (h .rows _ (List.getElem_mem hi))
  | listItem | tableRow | tableCell | unknown =>
    rw [toNodes]
    exact List.forall_mem_nil _

mutual

/-- The texts that a tree gives are lines. -/
theorem inLines_nodesAs : (k : MarkupContent) → (t : MarkupTree) → ∀ n ∈ t.nodesAs s k, n.InLines
  | k, leaf span l => by
    cases k with
    | flow => exact l.inLines_toNodes s false _
    | phrasing => exact l.inLines_toNodes s true _
    | items | rows | cells => exact List.forall_mem_nil _
  | k, branch span b ts => by
    cases k with
    | flow => exact inLines_toNodes_branch s false fun k => inLines_nodesAs_of_mem k ts
    | phrasing => exact inLines_toNodes_branch s true fun k => inLines_nodesAs_of_mem k ts
    | items =>
      rw [nodesAs, contentNodes, toNodesList_eq_flatMap]
      exact List.forall_mem_flatMap.mpr (inLines_nodesAs_of_mem .flow ts)
    | cells =>
      rw [nodesAs, contentNodes, toNodesList_eq_flatMap]
      exact List.forall_mem_flatMap.mpr (inLines_nodesAs_of_mem .phrasing ts)
    | rows =>
      rw [nodesAs, cellsOf, cellNodes_eq_map, List.forall_mem_map]
      exact fun t ht => Node.inLines_ofContainer _ (inLines_nodesAs_of_mem .cells ts t ht)

/-- The texts that siblings give are lines. -/
theorem inLines_nodesAs_of_mem : (k : MarkupContent) → (ts : List MarkupTree) →
    ∀ t ∈ ts, ∀ n ∈ t.nodesAs s k, n.InLines
  | _, [] => List.forall_mem_nil _
  | k, t :: ts => List.forall_mem_cons.mpr ⟨inLines_nodesAs k t, inLines_nodesAs_of_mem k ts⟩

end

end MarkupTree

/-! ### The text of a document -/

/-- The document of a text has the text of its markup, without the parts that stand outside their
containers. In markup that keeps to its content model there are none. Whatever the markup is, the
texts in the document are not empty and hold no line feed, apart from what describes an image. -/
theorem documentNodes_keep_text (source : String) (trees : List MarkupTree) :
    let document := (Document.ofNodes (documentNodes source trees)).toNode
    (MarkupTree.areTyped none trees = true →
        document.textContent = MarkupTree.plainTextList (MarkupTree.settledList none trees)) ∧
      (MarkupTree.areContent .flow trees = true →
        document.textContent = MarkupTree.plainTextList trees) ∧
      ∀ m ∈ document.preorder, m.HoldsLines := by
  intro document
  let s : Source := ⟨source.toList, MarkupTree.definitionsList trees⟩
  have hnodes : documentNodes source trees = trees.flatMap (MarkupTree.nodesAs s .flow) :=
    MarkupTree.toNodesList_eq_flatMap s false trees
  have htext : MarkupTree.areTyped none trees = true →
      document.textContent = MarkupTree.plainTextList (MarkupTree.settledList none trees) := by
    intro htyped
    have hflow := MarkupTree.textContentList_flatMap_nodesAs s (k := .flow) htyped
    rw [← hnodes] at hflow
    exact (Node.textContent_ofContainer _ _).trans hflow
  refine ⟨htext, fun hcontent => ?_, ?_⟩
  · obtain ⟨htyped, hsettled⟩ := MarkupTree.plainTextList_settledList_of_areContent hcontent
    exact (htext htyped).trans hsettled
  · have hlines : ∀ n ∈ documentNodes source trees, n.InLines := by
      rw [hnodes]
      exact List.forall_mem_flatMap.mpr (MarkupTree.inLines_nodesAs_of_mem s .flow trees)
    exact (Node.inLines_ofContainer .document hlines).2

/-- An item outside a list, a table with a short row, a list with an empty code block, and a text
that starts and ends with line feeds. -/
theorem documentNodes_keep_text_around_line_feeds :
    let cell := MarkupTree.branch none .tableCell [.leaf none (.text "c")]
    let trees : List MarkupTree :=
      [.branch none (.listItem none) [.branch none .paragraph [.leaf none (.text "lost")]],
        .branch none .paragraph [.leaf none (.text "\na\n\nb\n"),
          .leaf none (.image "u" none (some "i"))],
        .branch none (.table []) [.branch none .tableRow [cell, cell], .branch none .tableRow []],
        .branch none (.list false none false)
          [.branch none (.listItem (some true)) [.leaf none (.code none none ""),
            .leaf none (.code none none "d")]]]
    let document := (Document.ofNodes (documentNodes "" trees)).toNode
    MarkupTree.areTyped none trees = true ∧ document.textContent = "\na\n\nb\niccd\n" ∧
      MarkupTree.areContent .flow trees.tail = true ∧
      (Document.ofNodes (documentNodes "" trees.tail)).toNode.textContent = "\na\n\nb\niccd\n" ∧
      ∀ m ∈ document.preorder, m.HoldsLines := by
  intro cell trees document
  have htyped : MarkupTree.areTyped none trees = true := by decide
  have hcontent : MarkupTree.areContent .flow trees.tail = true := by decide
  obtain ⟨htext, -, hlines⟩ := documentNodes_keep_text "" trees
  obtain ⟨-, htail, -⟩ := documentNodes_keep_text "" trees.tail
  exact ⟨htyped, (htext htyped).trans (by decide), hcontent,
    (htail hcontent).trans (by decide), hlines⟩

/-- An item that stands in no list has text, but its document has none. -/
theorem textContent_documentNodes_ne_of_stray_item :
    let trees : List MarkupTree :=
      [.branch none (.listItem none) [.branch none .paragraph [.leaf none (.text "a")]]]
    MarkupTree.areTyped none trees = true ∧ MarkupTree.plainTextList trees = "a" ∧
      (Document.ofNodes (documentNodes "" trees)).toNode.textContent = "" := by
  decide

end LiveMarkdown
