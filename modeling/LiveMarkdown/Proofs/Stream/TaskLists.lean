import LiveMarkdown.Proofs.Graft.TaskLists
import LiveMarkdown.Proofs.Stream.Reachable

/-!
# Lists of tasks in a stream

The document of a session is put together by grafting, from nodes that have arrived and from nodes
that the engine has read. So its lists of tasks are marked as long as every task item that arrives
outside a list finds either a list that is marked or no list. An engine reads task items in lists
only, and lists that it reads are marked; text therefore does no harm.

## Main definitions

* `Session.TasksKnown`: the invariant of sessions.

## Main results

* `Session.tasksKnown_follow`: a reading that follows a document.
* `Session.tasksKnown_foldlM`: what a whole run keeps.
* `Session.tasks_stay_known`: the lists of documents that are grafted or streamed.
-/

namespace LiveMarkdown

variable {engine : String → Except Fault (List Node)}

namespace Session

/-- All lists in the documents of a session, and in the readings that it keeps, are marked as lists
of tasks if they hold one. No task item has been read outside a list. -/
abbrev TasksKnown (s : Session) : Prop :=
  s.Holds (fun d => d.toNode.TasksKnown) fun n => n.TasksKnown ∧ n.kind ≠ .taskItem

theorem tasksKnown_empty : Session.empty.TasksKnown := .empty (by decide)

theorem tasksKnown_follow {base : Document} {nodes : List Node} (hbase : base.toNode.TasksKnown)
    (hnodes : ∀ n ∈ nodes, n.TasksKnown ∧ n.kind ≠ .taskItem) :
    (follow base nodes).1.toNode.TasksKnown := by
  cases nodes with
  | nil => exact hbase
  | cons first rest =>
    obtain ⟨⟨hfirst, htask⟩, hrest⟩ := List.forall_mem_cons.mp hnodes
    have hgrown :=
      (Document.tasksKnown_append_iff hbase hfirst).mpr (Document.keepsTasks_of_ne htask)
    rw [Document.tasksKnown_toNode] at hgrown ⊢
    exact List.forall_mem_append.mpr ⟨hgrown, fun n hn => (hrest n hn).1⟩

variable {s : Session}

/-- What a whole run keeps. The induction carries along that the session is the one that the pieces
so far have led to, since that is the one the next task item goes into. -/
theorem tasksKnown_foldlM
    (hengine : ∀ text nodes, engine text = .ok nodes → ∀ n ∈ nodes, n.TasksKnown ∧
      n.kind ≠ .taskItem)
    {ps : List Piece} (hps : ∀ n, .node n ∈ ps → n.TasksKnown)
    (hkeeps : ∀ done n rest t, ps = done ++ .node n :: rest →
      (done.foldlM (ingestPlain engine) .empty).outcome = .ok t → t.document.KeepsTasks n)
    (h : (ps.foldlM (ingestPlain engine) .empty).outcome = .ok s) : s.TasksKnown := by
  let inv (done : List Piece) (t : Session) : Prop :=
    done <+: ps → (done.foldlM (ingestPlain engine) .empty).outcome = .ok t ∧ t.TasksKnown
  have hstep : ∀ done t p t', inv done t → (ingestPlain engine t p).outcome = .ok t' →
      inv (done ++ [p]) t' := by
    intro done t p t' ht hp hprefix
    obtain ⟨hrun, hknown⟩ := ht ((List.prefix_append done [p]).trans hprefix)
    obtain ⟨rest, hrest⟩ := hprefix
    rw [List.append_assoc, List.singleton_append] at hrest
    refine ⟨?_, ?_⟩
    · rw [List.foldlM_append, Reported.outcome_bind_eq_ok_iff]
      refine ⟨t, hrun, ?_⟩
      rw [List.foldlM_cons, Reported.outcome_bind_eq_ok_iff]
      exact ⟨t', hp, rfl⟩
    · cases p with
      | text text =>
        have hflags : ∀ (f : NodeFlags) (n : Node), n.TasksKnown ∧ n.kind ≠ .taskItem →
            (n.withFlags f).TasksKnown ∧ (n.withFlags f).kind ≠ .taskItem := by
          intro f n hn
          rwa [Node.tasksKnown_withFlags, Node.kind_withFlags]
        exact hknown.ingestText hengine hflags (tasksKnown_follow hknown.base) hp
      | node n =>
        have hn : n.TasksKnown := hps n (by simp [← hrest])
        have hgrown := Document.tasksKnown_append_iff hknown.document hn
        exact hknown.ingestSingle (hgrown.mpr (hkeeps done n rest t hrest.symm hrun)) hp
  exact (Reported.foldlM_invariant hstep ps [] .empty s (fun _ => ⟨rfl, tasksKnown_empty⟩) h
    (List.prefix_refl ps)).2

/-- A node keeps the lists of a document marked exactly if it is no task item, or the list that it
goes into is marked, or there is no such list. So do several nodes one after the other, and the
children of another document, if each of them does in the document that it finds. If the engine
reads lists that are marked and no task item outside a list, the lists in the document of a session
are marked as long as every node that arrives keeps them so. -/
theorem tasks_stay_known (engine : String → Except Fault (List Node)) (d : Document) :
    (∀ n : Node, d.toNode.TasksKnown → n.TasksKnown →
        ((d.append n).1.toNode.TasksKnown ↔ d.KeepsTasks n)) ∧
      (∀ ns : List Node, d.toNode.TasksKnown → (∀ n ∈ ns, n.TasksKnown) →
        (∀ done n rest, ns = done ++ n :: rest → (d.appendAll done).1.KeepsTasks n) →
        (d.appendAll ns).1.toNode.TasksKnown) ∧
      (∀ b : Document, d.toNode.TasksKnown → b.toNode.TasksKnown →
        (∀ done n rest, b.children = done ++ n :: rest → (d.appendAll done).1.KeepsTasks n) →
        (d.merge b).1.toNode.TasksKnown) ∧
      ∀ (vs : List Value) (chunks : List Chunk) (s : Session),
        (∀ text nodes, engine text = .ok nodes → ∀ n ∈ nodes, n.TasksKnown ∧ n.kind ≠ .taskItem) →
        Chunk.ofValues vs = .ok chunks → (∀ n, .node n ∈ Chunk.piecesList chunks → n.TasksKnown) →
        (∀ done n rest t, (Chunk.piecesList chunks).flatMap Piece.expanded =
          done ++ .node n :: rest →
          (done.foldlM (ingestPlain engine) .empty).outcome = .ok t → t.document.KeepsTasks n) →
        (ingestAll engine .empty vs).outcome = .ok s → s.document.toNode.TasksKnown := by
  refine ⟨fun n hd hn => Document.tasksKnown_append_iff hd hn,
    fun ns hd hns hkeeps => Document.tasksKnown_appendAll hd hns hkeeps,
    fun b hd hb hkeeps =>
      Document.tasksKnown_appendAll hd ((Document.tasksKnown_toNode b).mp hb) hkeeps,
    fun vs chunks s hengine hvalid hnodes hkeeps hs => ?_⟩
  rw [ingestAll_eq_foldlM_ingestPlain engine hvalid] at hs
  refine (tasksKnown_foldlM hengine (fun n hn => ?_) hkeeps hs).document
  obtain ⟨k, hk, hbelow⟩ := Piece.exists_of_node_mem_expanded hn
  exact fun m hm => hnodes k hk m (hbelow m hm)

/-- Task items that are wrapped, and that go into the lists made for them or into one that is
marked; and text that is read as a further list. -/
theorem tasks_stay_known_in_marked_lists :
    let task := Node.taskItem true []
    let tasks := Node.list { isTaskList := true } [task]
    let d := Document.ofNodes [tasks]
    let engine : String → Except Fault (List Node) := fun _ => .ok [tasks]
    d.toNode.TasksKnown ∧ task.TasksKnown ∧ (d.append task).1.toNode.TasksKnown ∧
      (Document.empty.appendAll [task, task]).1.toNode.TasksKnown ∧
      (d.merge (Document.ofNodes [task])).1.toNode.TasksKnown ∧
      (∀ text nodes, engine text = .ok nodes → ∀ n ∈ nodes, n.TasksKnown ∧ n.kind ≠ .taskItem) ∧
      ∃ s, (ingestAll engine .empty [task.toValue, .text "a"]).outcome = .ok s ∧
        s.document.children.length = 1 ∧ s.document.toNode.TasksKnown := by
  intro task tasks d engine
  obtain ⟨happend, -, hmerge, hsession⟩ := tasks_stay_known engine d
  obtain ⟨-, happendAll, -, -⟩ := tasks_stay_known engine .empty
  have hd : d.toNode.TasksKnown := by decide
  have htask : task.TasksKnown := by decide
  have hengine : ∀ text nodes, engine text = .ok nodes → ∀ n ∈ nodes, n.TasksKnown ∧
      n.kind ≠ .taskItem := by
    intro text nodes hnodes
    obtain rfl := Except.ok.inj hnodes
    decide
  have hvalid : Chunk.ofValues [task.toValue, .text "a"] = .ok [.node task, .text "a"] := by cbv
  obtain ⟨s, hs, hone⟩ : ∃ s, (ingestAll engine .empty [task.toValue, .text "a"]).outcome = .ok s ∧
      s.document.children.length = 1 := ⟨_, by cbv, by cbv⟩
  refine ⟨hd, htask, (happend task hd htask).mpr (by decide),
    happendAll _ (by decide) (by decide) ?_, hmerge _ hd (by decide) ?_, hengine, s, hs, hone,
    hsession _ _ s hengine hvalid ?_ ?_ hs⟩
  · have houter : (Document.empty.appendAll [task]).1.outerList? = some { isTaskList := true } := by
      cbv
    rintro (_ | ⟨first, _ | ⟨second, done⟩⟩) n rest heq
    · obtain ⟨rfl, -⟩ := List.cons.inj heq
      exact (by decide : Document.empty.KeepsTasks task)
    · obtain ⟨rfl, -⟩ := List.cons.inj heq
      intro _ a ha
      obtain rfl := Option.some.inj (houter.symm.trans ha)
      rfl
    · exact absurd (List.cons.inj (List.cons.inj heq).2).2 (by simp)
  · rintro (_ | ⟨first, done⟩) n rest heq
    · obtain ⟨rfl, -⟩ := List.cons.inj heq
      exact (by decide : d.KeepsTasks task)
    · exact absurd (List.cons.inj heq).2 (by simp)
  · intro n hn
    replace hn : Piece.node n ∈ [Piece.node task, .text "a"] := hn
    rcases List.mem_pair.mp hn with heq | heq
    · exact Piece.node.inj heq ▸ htask
    · cases heq
  · intro done n rest t heq hrun
    replace heq : [Piece.node task, .text "a"] = done ++ .node n :: rest := heq
    cases done with
    | nil =>
      obtain rfl := Except.ok.inj hrun
      obtain ⟨hn, -⟩ := List.cons.inj heq
      obtain rfl := Piece.node.inj hn
      exact (by decide : Document.empty.KeepsTasks task)
    | cons first done =>
      have hmem : Piece.node n ∈ [Piece.text "a"] := by
        rw [(List.cons.inj heq).2]
        exact List.mem_append_right _ List.mem_cons_self
      cases List.mem_singleton.mp hmem

end Session

end LiveMarkdown
