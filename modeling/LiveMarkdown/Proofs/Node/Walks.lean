import LiveMarkdown.Proofs.Node.Places

/-!
# Walks in document order

A walk calls the visitor on the nodes of a tree in document order. On the way down a node comes
before the nodes below it, and a visitor that skips a node is not asked about these; on the way up a
node comes after the nodes below it, and to skip it has no effect. Either walk is cut right behind
the first node at which the visitor stops. Every node gets at most one call: by its kind, if the
visitor has a callback for that, and else in general. So what is found first is the first of all
that is found.

The reason is that a walk through two lists of nodes, one behind the other, is the one walk
continued by the other, unless the first has ended: the recursion of a walk over a tree is then the
recursion of the listing.

## Main definitions

* `cutAfter`: a list, cut right behind the first item with a property.
* `Visitor.call?`, `Visitor.answer`: the call that a node gets, and what the visitor answers.
* `Visitor.passes`: the visitor skips none of the nodes above.
* `Visitor.callsAlong`: the calls on nodes that are visited one after the other.

## Main results

* `Node.walkDown_eq`, `Node.walkUp_eq`: the calls of the two walks.
* `Node.findFirst?_eq_find?`: what is found first.
* `Node.walks_follow_document_order`: walks and queries.
-/

namespace LiveMarkdown

/-! ### Lists that are cut -/

section Cut

variable {α β : Type} {p : α → Bool}

/-- A list, cut right behind the first item with a property. -/
def cutAfter (p : α → Bool) (l : List α) : List α := l.take (l.findIdx p + 1)

theorem cutAfter_cons (a : α) (l : List α) :
    cutAfter p (a :: l) = a :: if p a then [] else cutAfter p l := by
  rw [cutAfter, List.findIdx_cons]
  cases p a <;> rfl

theorem cutAfter_append (l m : List α) :
    cutAfter p (l ++ m) = if l.any p then cutAfter p l else l ++ cutAfter p m := by
  induction l with
  | nil => rfl
  | cons a l ih =>
    rw [List.cons_append, cutAfter_cons, cutAfter_cons, List.any_cons, ih]
    cases p a <;> cases l.any p <;> rfl

theorem cutAfter_of_not_any {l : List α} (h : l.any p = false) : cutAfter p l = l := by
  have hnil := cutAfter_append (p := p) l []
  simpa [h, cutAfter] using hnil

theorem map_cutAfter (f : α → β) (q : β → Bool) (l : List α) :
    (cutAfter (q ∘ f) l).map f = cutAfter q (l.map f) := by
  rw [cutAfter, cutAfter, List.map_take, List.findIdx_map]

/-- What a cut list ends with is the first item with the property, if there is one. -/
theorem filter_getLast?_cutAfter (l : List α) : (cutAfter p l).getLast?.filter p = l.find? p := by
  induction l with
  | nil => rfl
  | cons a l ih =>
    rw [cutAfter_cons, List.getLast?_cons]
    cases ha : p a with
    | true => simp [ha]
    | false =>
      rw [List.find?_cons_of_neg (by simp [ha]), ← ih]
      cases hlast : (cutAfter p l).getLast? <;> simp [ha, hlast]

end Cut

/-! ### Calls -/

namespace Visitor

variable (v : Visitor)

/-- The callback that a visitor has for a kind: the one for this kind, if there is one, and else the
general one. -/
def callback? (kind : NodeKind) : Option (Callback × (Node → Option Node → VisitResult)) :=
  match v.specific kind with
  | some answer => some (.specific, answer)
  | none => v.generic.map (Callback.generic, ·)

/-- The call that a node gets, if the visitor has a callback for its kind. -/
def call? (w : Visit) : Option Call :=
  (v.callback? w.node.kind).map fun callback => ⟨callback.1, w.node, w.parent?⟩

/-- What the visitor answers about a node below a parent. Without a callback the walk goes on. -/
def answer (n : Node) (parent : Option Node) : VisitResult :=
  ((v.callback? n.kind).map fun callback => callback.2 n parent).getD .goOn

/-- Whether the visitor ends the walk at a node. -/
def stopsAt (w : Visit) : Bool := v.answer w.node w.parent? = .stop

/-- Whether the visitor skips none of the nodes above a node, the nearest of them first. -/
def passes : List Node → Bool
  | [] => true
  | n :: above => v.answer n above.head? ≠ .skip && passes above

/-- Whether the visitor comes to a node, if nothing ends the walk. -/
def reaches (w : Visit) : Bool := v.passes w.above

/-- The calls on nodes that are visited one after the other, until the visitor ends the walk. -/
def callsAlong (ws : List Visit) : List Call := (cutAfter v.stopsAt ws).filterMap v.call?

/-- The walk along nodes that are visited one after the other. -/
def walkAlong (ws : List Visit) : Walk := ⟨v.callsAlong ws, ws.any v.stopsAt⟩

theorem visit_eq (n : Node) (above : List Node) (place : List Nat) :
    v.visit n above.head? = ((v.call? ⟨n, above, place⟩).toList, v.answer n above.head?) := by
  rw [visit, call?, answer, callback?]
  cases v.specific n.kind with
  | some answer => rfl
  | none => cases v.generic <;> rfl

theorem walkAlong_singleton (w : Visit) : v.walkAlong [w] = ⟨(v.call? w).toList, v.stopsAt w⟩ := by
  have hcut : cutAfter v.stopsAt [w] = [w] := by
    rw [cutAfter_cons]
    cases v.stopsAt w <;> rfl
  rw [walkAlong, callsAlong, hcut, List.any_cons, List.any_nil, Bool.or_false, List.filterMap_cons]
  cases v.call? w <;> rfl

/-- A walk along nodes goes on with the nodes behind them, unless it has ended. -/
theorem walkAlong_append (us ws : List Visit) :
    v.walkAlong (us ++ ws) = (v.walkAlong us).andThen (v.walkAlong ws) := by
  rw [walkAlong, callsAlong, cutAfter_append, List.any_append, Walk.andThen]
  cases hstop : us.any v.stopsAt with
  | true => simp [walkAlong, callsAlong, hstop]
  | false => simp [walkAlong, callsAlong, hstop, cutAfter_of_not_any hstop]

theorem walkAlong_cons (w : Visit) (ws : List Visit) :
    v.walkAlong (w :: ws) = Walk.andThen ⟨(v.call? w).toList, v.stopsAt w⟩ (v.walkAlong ws) := by
  rw [← List.singleton_append, walkAlong_append, walkAlong_singleton]

variable {v}

/-- Who passes nodes passes those of them that are further above. -/
theorem passes_of_append {nearer above : List Node} (h : v.passes (nearer ++ above) = true) :
    v.passes above = true := by
  induction nearer with
  | nil => exact h
  | cons n nearer ih =>
    rw [List.cons_append, passes, Bool.and_eq_true] at h
    exact ih h.2

end Visitor

/-! ### Walks -/

namespace Node

variable {v : Visitor}

/-- No node below a node that is skipped is passed on to. -/
theorem filter_reaches_eq_nil {place : List Nat} {index : Nat} {above ns : List Node}
    (h : v.passes above = false) :
    (visitsAmong .down place above index ns).filter v.reaches = [] := by
  rw [List.filter_eq_nil_iff]
  intro w hw hpasses
  obtain ⟨nearer, habove⟩ := exists_above_eq_append hw
  rw [Visitor.reaches, habove] at hpasses
  exact Bool.false_ne_true (h.symm.trans (Visitor.passes_of_append hpasses))

mutual

/-- The walk down goes along the nodes that are listed on the way down, without those below a node
that is skipped. -/
theorem walkDownFrom_eq (place : List Nat) {above : List Node} (hpasses : v.passes above = true) :
    (n : Node) → walkDownFrom v above.head? n =
      v.walkAlong ((visitsFrom .down place above n).filter v.reaches)
  | leaf f l => by
    rw [walkDownFrom, v.visit_eq (leaf f l) above place, visitsFrom, WalkOrder.arrange,
      List.filter_cons_of_pos (show v.reaches ⟨_, above, place⟩ = true from hpasses),
      List.filter_nil, Visitor.walkAlong_singleton]
    rfl
  | branch f c children => by
    have hbelow : v.passes (branch f c children :: above) =
        (v.answer (branch f c children) above.head? ≠ .skip && v.passes above) := rfl
    rw [walkDownFrom, v.visit_eq (branch f c children) above place, visitsFrom_down_eq,
      List.filter_cons_of_pos (show v.reaches ⟨_, above, place⟩ = true from hpasses),
      Visitor.walkAlong_cons, Visitor.stopsAt, Visit.parent?]
    cases hanswer : v.answer (branch f c children) above.head? with
    | stop => rfl
    | skip =>
      rw [filter_reaches_eq_nil (by rw [hbelow, hanswer]; rfl)]
      simp [Walk.andThen, Visitor.walkAlong, Visitor.callsAlong, cutAfter]
    | goOn =>
      rw [hanswer, hpasses] at hbelow
      have hchildren := walkDownList_eq place 0 hbelow children
      rw [List.head?_cons] at hchildren
      rw [show (branch f c children).children = children from rfl, ← hchildren]
      rfl

theorem walkDownList_eq (place : List Nat) (index : Nat) {above : List Node}
    (hpasses : v.passes above = true) :
    (ns : List Node) → walkDownList v above.head? ns =
      v.walkAlong ((visitsAmong .down place above index ns).filter v.reaches)
  | [] => rfl
  | n :: ns => by
    rw [walkDownList, visitsAmong, List.filter_append, Visitor.walkAlong_append,
      walkDownFrom_eq (place ++ [index]) hpasses n, walkDownList_eq place (index + 1) hpasses ns]

end

mutual

/-- The walk up goes along the nodes that are listed on the way up. -/
theorem walkUpFrom_eq (place : List Nat) (above : List Node) : (n : Node) →
    walkUpFrom v above.head? n = v.walkAlong (visitsFrom .up place above n)
  | leaf f l => by
    rw [walkUpFrom, v.visit_eq (leaf f l) above place, visitsFrom, WalkOrder.arrange,
      List.nil_append, Visitor.walkAlong_singleton]
    rfl
  | branch f c children => by
    have hchildren := walkUpList_eq place (branch f c children :: above) 0 children
    rw [List.head?_cons] at hchildren
    rw [walkUpFrom, v.visit_eq (branch f c children) above place, visitsFrom, WalkOrder.arrange,
      Visitor.walkAlong_append, Visitor.walkAlong_singleton, ← hchildren]
    rfl

theorem walkUpList_eq (place : List Nat) (above : List Node) (index : Nat) : (ns : List Node) →
    walkUpList v above.head? ns = v.walkAlong (visitsAmong .up place above index ns)
  | [] => rfl
  | n :: ns => by
    rw [walkUpList, visitsAmong, Visitor.walkAlong_append, walkUpFrom_eq (place ++ [index]) above n,
      walkUpList_eq place above (index + 1) ns]

end

/-- The calls of the walk down are those on the nodes in document order, without the nodes below one
that is skipped. -/
theorem walkDown_eq (v : Visitor) (root : Node) :
    root.walkDown v = v.callsAlong ((root.visits .down).filter v.reaches) :=
  congrArg Walk.calls (@walkDownFrom_eq v [] [] rfl root)

/-- The calls of the walk up are those on the nodes, each after the nodes below it. -/
theorem walkUp_eq (v : Visitor) (root : Node) : root.walkUp v = v.callsAlong (root.visits .up) :=
  congrArg Walk.calls (walkUpFrom_eq [] [] root)

/-! ### Queries -/

/-- What is found first is the first in document order that is picked. -/
theorem findFirst?_eq_find? (s : NodeSelector) (root : Node) :
    root.findFirst? s = root.preorder.find? s.picks := by
  let v : Visitor := .ofGeneric fun n _ => if s.picks n then .stop else .goOn
  have hanswer : ∀ n parent, v.answer n parent = if s.picks n then .stop else .goOn :=
    fun _ _ => rfl
  have hstops : v.stopsAt = s.picks ∘ Visit.node := by
    funext w
    rw [Visitor.stopsAt, hanswer, Function.comp_apply]
    cases s.picks w.node <;> rfl
  have hpasses : ∀ above, v.passes above = true := by
    intro above
    induction above with
    | nil => rfl
    | cons n above ih =>
      rw [Visitor.passes, hanswer, ih]
      cases s.picks n <;> rfl
  have hcalls : (root.walkDown v).map Call.node = cutAfter s.picks root.preorder := by
    rw [walkDown_eq, List.filter_eq_self.mpr fun w _ => hpasses w.above, Visitor.callsAlong,
      List.map_filterMap, hstops, ← map_node_visits_down, ← map_cutAfter]
    exact congrFun List.filterMap_eq_map _
  have hlast : root.findFirst? s = ((root.walkDown v).map Call.node).getLast?.filter s.picks := by
    rw [List.getLast?_map]
    rfl
  rw [hlast, hcalls, filter_getLast?_cutAfter]

/-- The walk down calls the visitor on the nodes in document order, without those below a node that
is skipped, and the walk up on the nodes in postorder. Both are cut right behind the first node at
which the visitor stops. Each node is listed once, so it gets at most one call: by its kind, if the
visitor has a callback for that, and else in general. What is found is picked from the nodes in
document order, and what is found first is the first of it. -/
theorem walks_follow_document_order (root : Node) (v : Visitor) (s : NodeSelector) :
    root.walkDown v =
        (cutAfter v.stopsAt ((root.visits .down).filter v.reaches)).filterMap v.call? ∧
      root.walkUp v = (cutAfter v.stopsAt (root.visits .up)).filterMap v.call? ∧
      (∀ order, ((root.visits order).map Visit.place).Nodup ∧
        ∀ w, w ∈ root.visits order ↔ root.along? w.place = some (w.above.reverse ++ [w.node])) ∧
      (root.visits .down).map Visit.node = root.preorder ∧
      root.findAll s = root.preorder.filter s.picks ∧
      root.findFirst? s = (root.findAll s).head? := by
  refine ⟨walkDown_eq v root, walkUp_eq v root,
    fun order => ⟨nodup_place_visits order root, fun w => mem_visits_iff⟩,
    map_node_visits_down root, findAll_eq s root, ?_⟩
  rw [findAll_eq, List.head?_filter]
  exact findFirst?_eq_find? s root

end Node

end LiveMarkdown
