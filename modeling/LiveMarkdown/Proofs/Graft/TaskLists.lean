import LiveMarkdown.Proofs.Graft.Placement
import LiveMarkdown.Proofs.Node.Preorder

/-!
# Grafting and lists of tasks

A list that holds a task item is marked as a list of tasks. Two lists that join are marked if one of
them is, and a list that is made around a task item is marked. But a task item that is put into a
list which is there already does not mark that list. So grafting keeps the marks right, except for a
task item that goes into a list without the mark, and then it never does.

## Main definitions

* `Node.TasksKnown`: all lists of a tree that hold task items are marked.
* `Document.outerList?`: the list that a task item goes into.
* `Document.KeepsTasks`: a node is no task item, or no list without the mark takes it in.

## Main results

* `Node.Grows.exists_outerList?`: a task item goes into the shallowest list on the rightmost path.
* `Document.tasksKnown_append_iff`: when the marks are right after a node has been appended.
* `Document.tasksKnown_appendAll`: appending several nodes.
-/

namespace LiveMarkdown

/-- A container with the given children is no list with a task item among them, or it is marked. -/
def Container.KnowsTasks (children : List Node) : Container → Prop
  | .list a => (∃ n ∈ children, n.kind = .taskItem) → a.isTaskList = true
  | _ => True

/-- The node is no list with a task item, or it is marked. -/
def Node.KnowsTasks : Node → Prop
  | leaf _ _ => True
  | branch _ c children => c.KnowsTasks children

instance (c : Container) (children : List Node) : Decidable (c.KnowsTasks children) :=
  match c with
  | .list a =>
    inferInstanceAs (Decidable ((∃ n ∈ children, n.kind = .taskItem) → a.isTaskList = true))
  | .document | .paragraph | .heading .. | .blockQuote | .table _ | .descriptionList |
      .footnoteDefinition _
  | .listItem _ | .taskItem .. | .tableRow _ | .tableCell | .descriptionItem | .descriptionTerm
  | .descriptionDetails | .emph | .strong | .strikethrough | .link .. | .image .. => isTrue trivial

instance : (n : Node) → Decidable n.KnowsTasks
  | .leaf _ _ => isTrue trivial
  | .branch _ c children => inferInstanceAs (Decidable (c.KnowsTasks children))

/-- All lists of a tree that hold a task item are marked. -/
def Node.TasksKnown (n : Node) : Prop :=
  ∀ m ∈ n.preorder, m.KnowsTasks

instance (n : Node) : Decidable n.TasksKnown :=
  inferInstanceAs (Decidable (∀ m ∈ n.preorder, m.KnowsTasks))

namespace Node

mutual

/-- The attributes of the shallowest list on the rightmost path of a tree. A document is not
entered. -/
def outerList? : Node → Option ListAttributes
  | leaf _ _ => none
  | branch _ .document _ => none
  | branch _ (.list a) _ => some a
  | branch _ _ children => outerListOfLast? children

/-- The attributes of the shallowest list on the rightmost path of the last of some siblings. -/
def outerListOfLast? : List Node → Option ListAttributes
  | [] => none
  | [n] => outerList? n
  | _ :: second :: rest => outerListOfLast? (second :: rest)

end

end Node

/-- The attributes of the shallowest list on the rightmost path of a document. -/
def Document.outerList? (d : Document) : Option ListAttributes :=
  Node.outerListOfLast? d.children

/-- The node is no task item, or it finds no list that is not marked as one of tasks. -/
def Document.KeepsTasks (d : Document) (n : Node) : Prop :=
  n.kind = .taskItem → ∀ a ∈ d.outerList?, a.isTaskList = true

instance (d : Document) (n : Node) : Decidable (d.KeepsTasks n) :=
  inferInstanceAs (Decidable (n.kind = .taskItem → ∀ a ∈ d.outerList?, a.isTaskList = true))

/-! ### Marks that are right -/

theorem Container.KnowsTasks.of_ne_list {c : Container} (h : ∀ a, c ≠ .list a)
    (children : List Node) :
    c.KnowsTasks children := by
  cases c with
  | list a => exact absurd rfl (h a)
  | _ => trivial

/-- A further child that is no task item leaves the mark right. -/
theorem Container.knowsTasks_refresh_append {c : Container} {children new grown : List Node}
    (hnew : ∀ n ∈ new, n.kind ≠ .taskItem) (h : c.KnowsTasks children) :
    (c.refresh grown).KnowsTasks (children ++ new) := by
  cases c with
  | list a =>
    rintro ⟨m, hm, htask⟩
    rcases List.mem_append.mp hm with hm | hm
    · exact h ⟨m, hm, htask⟩
    · exact absurd htask (hnew m hm)
  | _ => trivial

theorem Container.refresh_eq_list_iff {c : Container} {children : List Node} {a : ListAttributes} :
    c.refresh children = .list a ↔ c = .list a := by
  cases c <;> simp [refresh]

namespace Node

variable {n m w last grown joined : Node} {ns : List Node}

@[simp]
theorem tasksKnown_leaf (f : NodeFlags) (l : Leaf) : (leaf f l).TasksKnown := by
  simp [TasksKnown, KnowsTasks]

@[simp]
theorem tasksKnown_branch (f : NodeFlags) (c : Container) (ns : List Node) :
    (branch f c ns).TasksKnown ↔ c.KnowsTasks ns ∧ ∀ n ∈ ns, n.TasksKnown :=
  forall_mem_preorder_branch

/-- Flags play no part in the marks. -/
theorem tasksKnown_withFlags (f : NodeFlags) (n : Node) :
    (n.withFlags f).TasksKnown ↔ n.TasksKnown := by
  cases n <;> simp [withFlags]

theorem outerListOfLast?_concat (last : Node) :
    ∀ front : List Node, outerListOfLast? (front ++ [last]) = last.outerList?
  | [] => by rw [List.nil_append, outerListOfLast?]
  | [first] => by rw [List.singleton_append, outerListOfLast?, outerListOfLast?]
  | first :: second :: rest => by
    rw [List.cons_append, List.cons_append, outerListOfLast?, ← List.cons_append,
      outerListOfLast?_concat last (second :: rest)]

theorem outerList?_branch {c : Container} (hdocument : c ≠ .document) (hlist : ∀ a, c ≠ .list a)
    (f : NodeFlags) (ns : List Node) : (branch f c ns).outerList? = outerListOfLast? ns := by
  cases c with
  | document => exact absurd rfl hdocument
  | list a => exact absurd rfl (hlist a)
  | _ => rw [outerList?] <;> simp

/-- Task items fit lists and nothing else. -/
theorem fits_iff_of_taskItem (hn : n.kind = .taskItem) (c : Container) :
    c.fits n = true ↔ ∃ a, c = .list a := by
  cases n with
  | leaf f l => cases l <;> cases hn
  | branch f e ns =>
    cases e <;> cases hn
    cases c <;> simp [Container.fits, Container.kind, kind, NodeKind.accepts, NodeKind.contentModel,
      NodeKind.category]

/-! ### One step -/

/-- A tree that takes in a node keeps its kind. -/
theorem Grows.kind_eq (h : Grows n m grown) : grown.kind = m.kind := by
  cases h <;> exact Container.kind_refresh _ _

/-- A tree that takes in something else than a task item keeps its marks right. -/
theorem Grows.tasksKnown (h : Grows n m grown) (htask : n.kind ≠ .taskItem) (hm : m.TasksKnown)
    (hn : n.TasksKnown) : grown.TasksKnown := by
  induction h with
  | @here f c children _ _ =>
    obtain ⟨hknows, hchildren⟩ := (tasksKnown_branch f c children).mp hm
    refine (tasksKnown_branch _ _ _).mpr
      ⟨Container.knowsTasks_refresh_append (List.forall_mem_singleton.mpr htask) hknows, ?_⟩
    exact List.forall_mem_append.mpr ⟨hchildren, List.forall_mem_singleton.mpr hn⟩
  | @deeper f c front last grown _ _ hgrows ih =>
    obtain ⟨hknows, hchildren⟩ := (tasksKnown_branch f c (front ++ [last])).mp hm
    obtain ⟨hfront, hlast⟩ := List.forall_mem_append.mp hchildren
    have hlast := List.forall_mem_singleton.mp hlast
    refine (tasksKnown_branch _ _ _).mpr
      ⟨?_, List.forall_mem_append.mpr ⟨hfront, List.forall_mem_singleton.mpr (ih hlast)⟩⟩
    cases c with
    | list a =>
      rintro ⟨k, hk, hkind⟩
      rcases List.mem_append.mp hk with hk | hk
      · exact hknows ⟨k, List.mem_append_left _ hk, hkind⟩
      · obtain rfl := List.mem_singleton.mp hk
        exact hknows ⟨last, List.mem_append_right _ List.mem_cons_self,
          hgrows.kind_eq.symm.trans hkind⟩
    | _ => trivial

/-- A task item goes into the shallowest list on the rightmost path. The marks are right afterwards
exactly if that list is marked. -/
theorem Grows.exists_outerList? (h : Grows n m grown) (htask : n.kind = .taskItem)
    (hm : m.TasksKnown) (hn : n.TasksKnown) :
    ∃ a, m.outerList? = some a ∧ (grown.TasksKnown ↔ a.isTaskList = true) := by
  induction h with
  | @here f c children _ hfits =>
    obtain ⟨a, rfl⟩ := (fits_iff_of_taskItem htask c).mp hfits
    obtain ⟨-, hchildren⟩ := (tasksKnown_branch f (.list a) children).mp hm
    refine ⟨a, by rw [outerList?], ?_⟩
    have hgrown : ∀ k ∈ children ++ [n], k.TasksKnown :=
      List.forall_mem_append.mpr ⟨hchildren, List.forall_mem_singleton.mpr hn⟩
    rw [tasksKnown_branch, and_iff_left hgrown]
    exact ⟨fun hknows => hknows ⟨n, List.mem_append_right _ List.mem_cons_self, htask⟩,
      fun hmark _ => hmark⟩
  | @deeper f c front last grown hdocument hfits _ ih =>
    have hlist : ∀ a, c ≠ .list a := fun a hc =>
      Bool.eq_false_iff.mp hfits ((fits_iff_of_taskItem htask c).mpr ⟨a, hc⟩)
    obtain ⟨-, hchildren⟩ := (tasksKnown_branch f c (front ++ [last])).mp hm
    obtain ⟨hfront, hlast⟩ := List.forall_mem_append.mp hchildren
    obtain ⟨a, houter, hgrown⟩ := ih (List.forall_mem_singleton.mp hlast)
    refine ⟨a, by rw [outerList?_branch hdocument hlist, outerListOfLast?_concat, houter], ?_⟩
    have hknows : (c.refresh (front ++ [grown])).KnowsTasks (front ++ [grown]) :=
      .of_ne_list (fun b hb => hlist b (Container.refresh_eq_list_iff.mp hb)) _
    rw [tasksKnown_branch, and_iff_right hknows, List.forall_mem_append, List.forall_mem_singleton,
      and_iff_right hfront, hgrown]

mutual

/-- Where a task item finds no place there is no list. -/
theorem outerList?_eq_none_of_insert? (htask : n.kind = .taskItem) :
    ∀ {m : Node}, insert? n m = none → m.outerList? = none
  | leaf _ _, _ => by rw [outerList?]
  | branch f c children, h => by
    rw [insert?] at h
    split at h
    · rename_i hdocument
      rw [hdocument, outerList?]
    · rename_i hdocument
      split at h
      · cases h
      · rename_i hfits
        have hlist : ∀ a, c ≠ .list a :=
          fun a hc => hfits ((fits_iff_of_taskItem htask c).mpr ⟨a, hc⟩)
        rw [outerList?_branch hdocument hlist]
        split at h
        · cases h
        · rename_i hchildren
          exact outerListOfLast?_eq_none_of_insertLast? htask hchildren

/-- Where a task item finds no place in the last of some siblings there is no list. -/
theorem outerListOfLast?_eq_none_of_insertLast? (htask : n.kind = .taskItem) :
    ∀ {children : List Node}, insertLast? n children = none → outerListOfLast? children = none
  | [], _ => by rw [outerListOfLast?]
  | [last], h => by
    rw [insertLast?] at h
    split at h
    · cases h
    · rename_i hlast
      rw [outerListOfLast?]
      exact outerList?_eq_none_of_insert? htask hlast
  | first :: second :: rest, h => by
    rw [insertLast?] at h
    split at h
    · cases h
    · rename_i hrest
      rw [outerListOfLast?]
      exact outerListOfLast?_eq_none_of_insertLast? htask hrest

end

/-- Lists that join are marked if one of them is. -/
theorem Joins.tasksKnown (h : last.Joins n joined) (hlast : last.TasksKnown) (hn : n.TasksKnown) :
    joined.TasksKnown := by
  cases h with
  | table | descriptionList =>
    rw [tasksKnown_branch] at hlast hn ⊢
    exact ⟨trivial, List.forall_mem_append.mpr ⟨hlast.2, hn.2⟩⟩
  | @list f g a b ns ms _ =>
    rw [tasksKnown_branch] at hlast hn ⊢
    refine ⟨?_, List.forall_mem_append.mpr ⟨hlast.2, hn.2⟩⟩
    rintro ⟨k, hk, hkind⟩
    rcases List.mem_append.mp hk with hk | hk
    · exact Bool.or_eq_true_iff.mpr (Or.inl (hlast.1 ⟨k, hk, hkind⟩))
    · exact Bool.or_eq_true_iff.mpr (Or.inr (hn.1 ⟨k, hk, hkind⟩))

/-- The container that is made for a part is no task item, and is marked if the part is one. -/
theorem of_wrapper? (h : n.wrapper? = some w) (hn : n.TasksKnown) :
    w.kind ≠ .taskItem ∧ w.TasksKnown := by
  unfold wrapper? at h
  split at h <;> simp only [Option.some.injEq, reduceCtorEq] at h
  all_goals
    subst h
    rw [markSynthetic, addFlags, tasksKnown_withFlags, kind_withFlags]
    refine ⟨by simp [list, table, tableRow, ofContainer, kind, Container.kind],
      (tasksKnown_branch _ _ _).mpr ⟨?_, List.forall_mem_singleton.mpr hn⟩⟩
  case h_1 f a ns =>
    rintro ⟨k, hk, hkind⟩
    obtain rfl := List.mem_singleton.mp hk
    cases hkind
  case h_2 => exact fun _ => rfl
  all_goals trivial

theorem kind_ne_taskItem_of_wrapper?_eq_none (h : n.wrapper? = none) : n.kind ≠ .taskItem := by
  cases n with
  | leaf f l => cases l <;> simp [kind, Leaf.kind]
  | branch f c ns => cases c <;> simp_all [wrapper?, kind, Container.kind]

end Node

namespace Document

variable {d grown : Document} {n : Node} {diagnostics : List Diagnostic}

theorem tasksKnown_toNode (d : Document) :
    d.toNode.TasksKnown ↔ ∀ n ∈ d.children, n.TasksKnown := by
  rw [toNode, Node.tasksKnown_branch, and_iff_right (by trivial)]

theorem tasksKnown_concat_iff {front : List Node} {last : Node}
    (hfront : ∀ n ∈ front, n.TasksKnown) :
    (toNode { d with children := front ++ [last] }).TasksKnown ↔ last.TasksKnown := by
  rw [tasksKnown_toNode, List.forall_mem_append, and_iff_right hfront, List.forall_mem_singleton]

theorem keepsTasks_of_ne (h : n.kind ≠ .taskItem) : d.KeepsTasks n :=
  fun htask => absurd htask h

theorem TakesIn.tasksKnown_iff (h : d.TakesIn n grown diagnostics) (hd : d.toNode.TasksKnown)
    (hn : n.TasksKnown) : grown.toNode.TasksKnown ↔ d.KeepsTasks n := by
  rw [tasksKnown_toNode] at hd
  induction h with
  | @atRoot n hblock =>
    have htask : n.kind ≠ .taskItem := fun htask => by simp [htask, NodeKind.category] at hblock
    exact iff_of_true ((tasksKnown_concat_iff hd).mpr hn) (keepsTasks_of_ne htask)
  | @within n last grown front _ hchildren hgrown =>
    rw [hchildren] at hd
    obtain ⟨hfront, hlast⟩ := List.forall_mem_append.mp hd
    have hlast := List.forall_mem_singleton.mp hlast
    rw [tasksKnown_concat_iff hfront]
    by_cases htask : n.kind = .taskItem
    · obtain ⟨a, houter, hknown⟩ := hgrown.exists_outerList? htask hlast hn
      rw [hknown, KeepsTasks, outerList?, hchildren, Node.outerListOfLast?_concat, houter]
      simp [htask]
    · exact iff_of_true (hgrown.tasksKnown htask hlast hn) (keepsTasks_of_ne htask)
  | @wrapped n w grown diagnostics hplace hw _ ih =>
    obtain ⟨htask, hknown⟩ := Node.of_wrapper? hw hn
    refine iff_of_true ((ih hknown).mpr (keepsTasks_of_ne htask)) fun htask a ha => ?_
    -- A task item is wrapped only where there is no list.
    have hnone : d.outerList? = none := by
      rw [place?_eq, if_neg (by simp [htask, NodeKind.category]), Option.map_eq_none_iff] at hplace
      exact Node.outerListOfLast?_eq_none_of_insertLast? htask hplace
    rw [hnone] at ha
    cases ha
  | @atEnd n _ hw =>
    exact iff_of_true ((tasksKnown_concat_iff hd).mpr hn)
      (keepsTasks_of_ne (Node.kind_ne_taskItem_of_wrapper?_eq_none hw))

/-- Where all marks are right, they are right with a further node exactly if this is no task item,
or the list that it goes into is marked, or there is no such list. -/
theorem tasksKnown_append_iff (hd : d.toNode.TasksKnown) (hn : n.TasksKnown) :
    (d.append n).1.toNode.TasksKnown ↔ d.KeepsTasks n := by
  rcases d.append_cases n with ⟨front, last, joined, hchildren, -, hjoins, happend⟩ | ⟨-, htaken⟩
  · have htask : n.kind ≠ .taskItem := fun htask => by
      have hkind := hjoins.kind_mem
      simp [htask] at hkind
    rw [tasksKnown_toNode, hchildren] at hd
    obtain ⟨hfront, hlast⟩ := List.forall_mem_append.mp hd
    rw [happend, tasksKnown_concat_iff hfront]
    exact iff_of_true (hjoins.tasksKnown (List.forall_mem_singleton.mp hlast) hn)
      (keepsTasks_of_ne htask)
  · exact htaken.tasksKnown_iff hd hn

/-- A task item that goes into a list without the mark. -/
theorem not_tasksKnown_append_of_plain_list :
    let d := Document.ofNodes [Node.list {} [Node.listItem {} []]]
    let task := Node.taskItem true []
    d.toNode.TasksKnown ∧ task.TasksKnown ∧ ¬(d.append task).1.toNode.TasksKnown := by
  intro d task
  have hd : d.toNode.TasksKnown := by decide
  have htask : task.TasksKnown := by decide
  exact ⟨hd, htask, (not_congr (tasksKnown_append_iff hd htask)).mpr (by decide)⟩

/-- Several nodes keep the marks right if none of them is a task item that goes into a list without
the mark. -/
theorem tasksKnown_appendAll {ns : List Node} (hd : d.toNode.TasksKnown)
    (hns : ∀ n ∈ ns, n.TasksKnown)
    (hkeeps : ∀ done n rest, ns = done ++ n :: rest → (d.appendAll done).1.KeepsTasks n) :
    (d.appendAll ns).1.toNode.TasksKnown := by
  induction ns generalizing d with
  | nil => exact hd
  | cons n ns ih =>
    obtain ⟨hn, hns⟩ := List.forall_mem_cons.mp hns
    rw [appendAll_cons]
    refine ih ((tasksKnown_append_iff hd hn).mpr (hkeeps [] n ns rfl)) hns fun done k rest heq => ?_
    have hkeeps := hkeeps (n :: done) k rest (by rw [heq]; rfl)
    rwa [appendAll_cons] at hkeeps

end Document

end LiveMarkdown
