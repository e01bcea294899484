import LiveMarkdown.Proofs.Graft.TableCounters
import LiveMarkdown.Proofs.Stream.Reachable

/-!
# Tables in a stream

The document of a session is put together by grafting, from nodes that have arrived and from nodes
that the engine has read. Readings are marked and partly kept from earlier ones, which changes flags
at most. So if the tables that come in count their rows and columns rightly, all tables of the
document do, at any time.

## Main definitions

* `Session.TablesCount`: the invariant of sessions.

## Main results

* `Session.tablesCount_follow`: a reading that follows a document.
* `Session.tables_keep_counting`: the tables of documents that are grafted or streamed.
-/

namespace LiveMarkdown

variable {engine : String → Except Fault (List Node)}

namespace Session

/-- All tables in the documents of a session, and in the readings that it keeps, count rightly. -/
abbrev TablesCount (s : Session) : Prop :=
  s.Holds (fun d => d.toNode.TablesCount) Node.TablesCount

theorem tablesCount_empty : Session.empty.TablesCount := .empty (by decide)

theorem tablesCount_follow {base : Document} {nodes : List Node} (hbase : base.toNode.TablesCount)
    (hnodes : ∀ n ∈ nodes, n.TablesCount) : (follow base nodes).1.toNode.TablesCount := by
  cases nodes with
  | nil => exact hbase
  | cons first rest =>
    obtain ⟨hfirst, hrest⟩ := List.forall_mem_cons.mp hnodes
    exact Document.tablesCount_of_append (Document.tablesCount_append hbase hfirst) hrest

/-- Tables keep counting: where all tables of a document and of a node count their rows and columns
rightly, so do all tables of the document with the node, and with any number of nodes. If the engine
reads only such tables and only such tables arrive, all tables in the document of a session count
rightly at any time. -/
theorem tables_keep_counting :
    (∀ (d : Document) (n : Node), d.toNode.TablesCount → n.TablesCount →
        (d.append n).1.toNode.TablesCount) ∧
      (∀ (d : Document) (ns : List Node), d.toNode.TablesCount → (∀ n ∈ ns, n.TablesCount) →
        (d.appendAll ns).1.toNode.TablesCount) ∧
      (∀ a b : Document, a.toNode.TablesCount → b.toNode.TablesCount →
        (a.merge b).1.toNode.TablesCount) ∧
      ∀ (engine : String → Except Fault (List Node)) (s : Session),
        (∀ text nodes, engine text = .ok nodes → ∀ n ∈ nodes, n.TablesCount) →
        s.Reachable engine Node.Counts → s.document.toNode.TablesCount := by
  refine ⟨fun d n hd hn => Document.tablesCount_append hd hn,
    fun d ns hd hns => Document.tablesCount_appendAll hd hns,
    fun a b ha hb => Document.tablesCount_appendAll ha ((Document.tablesCount_toNode b).mp hb),
    fun engine s hengine hs => ?_⟩
  refine (hs.invariant tablesCount_empty (fun ht htext => ?_) fun ht hn hnode => ?_).document
  · exact ht.ingestText hengine (fun f n => (Node.tablesCount_withFlags f n).mpr)
      (tablesCount_follow ht.base) htext
  · exact ht.ingestSingle (Document.tablesCount_append ht.document hn) hnode

/-- A row that is wider than its table, a second table of the new width, and text that is read as a
third one, which joins them. -/
theorem tables_keep_counting_wider_row :
    let cell := Node.ofContainer .tableCell []
    let row := Node.tableRow false [cell, cell]
    let d := Document.ofNodes [Node.table [Node.tableRow true [cell]] none]
    let engine : String → Except Fault (List Node) := fun _ => .ok [Node.table [row] none]
    d.toNode.TablesCount ∧ row.TablesCount ∧ (d.append row).1.toNode.TablesCount ∧
      (∀ n ∈ [row, Node.table [row] none], n.TablesCount) ∧
      (d.appendAll [row, Node.table [row] none]).1.toNode.TablesCount ∧
      (d.merge d).1.toNode.TablesCount ∧
      (∀ text nodes, engine text = .ok nodes → ∀ n ∈ nodes, n.TablesCount) ∧
      ∃ s, (ingestAll engine .empty [row.toValue, .text "*a"]).outcome = .ok s ∧
        s.Reachable engine Node.Counts ∧ s.document.children.length = 1 ∧
        s.document.toNode.TablesCount := by
  intro cell row d engine
  obtain ⟨happend, happendAll, hmerge, hsession⟩ := tables_keep_counting
  have hd : d.toNode.TablesCount := by decide
  have hrow : row.TablesCount := by decide
  have htables : ∀ n ∈ [row, Node.table [row] none], n.TablesCount := by decide
  have hengine : ∀ text nodes, engine text = .ok nodes → ∀ n ∈ nodes, n.TablesCount := by
    intro text nodes hnodes
    obtain rfl := Except.ok.inj hnodes
    decide
  have hvalid : Chunk.ofValues [row.toValue, .text "*a"] = .ok [.node row, .text "*a"] := by cbv
  have hallowed : ∀ n, .node n ∈ Chunk.piecesList [.node row, .text "*a"] →
      ∀ m ∈ n.preorder, m.Counts := by
    intro n hn
    obtain rfl : n = row := by simpa [Chunk.piecesList, Chunk.pieces] using hn
    exact hrow
  obtain ⟨s, hs, hone⟩ : ∃ s, (ingestAll engine .empty [row.toValue, .text "*a"]).outcome = .ok s ∧
      s.document.children.length = 1 := ⟨_, by cbv, by cbv⟩
  have hreachable := Reachable.empty.ingestAll hvalid hallowed hs
  exact ⟨hd, hrow, happend d row hd hrow, htables, happendAll d _ hd htables, hmerge d d hd hd,
    hengine, s, hs, hreachable, hone, hsession engine s hengine hreachable⟩

end Session

end LiveMarkdown
