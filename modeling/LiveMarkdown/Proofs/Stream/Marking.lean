import LiveMarkdown.Proofs.Node.Flags
import LiveMarkdown.Stream.Session

/-!
# Marked readings

A reading of a completed text marks its last node as speculative, a reading of a text that needed no
closers marks nothing. Reconciling a new reading with an earlier one keeps nodes of the earlier one.
If the engine sets no flags itself, this does not show in the result: what comes out is the new
reading, marked as if there had been no earlier one.

## Main definitions

* `markedReading`: a reading with the mark that it gets on its own.
* `IsMarkedReading`: the nodes are a reading without flags that has been marked.

## Main results

* `forall_mem_reconcile`: what holds of two readings, whatever the flags, holds of the reconciled
  one.
* `reconcile_eq_markedReading`: an earlier reading leaves no trace in a later one.
-/

namespace LiveMarkdown

section Reconciled

variable {P : Node → Prop} (hflags : ∀ f n, P n → P (n.withFlags f))

include hflags

theorem forall_mem_markLast {ns : List Node} (h : ∀ n ∈ ns, P n) : ∀ n ∈ markLast ns, P n := by
  fun_induction markLast ns with
  | case1 => exact h
  | case2 n =>
    rw [List.forall_mem_singleton] at h ⊢
    exact hflags _ n h
  | case3 n m ns ih =>
    obtain ⟨hn, hns⟩ := List.forall_mem_cons.mp h
    exact List.forall_mem_cons.mpr ⟨hn, ih hns⟩

/-- A reconciled reading consists of nodes of two readings, up to flags. -/
theorem forall_mem_reconcile {previous parsed : List Node} {speculative : Bool}
    (hprevious : ∀ n ∈ previous, P n) (hparsed : ∀ n ∈ parsed, P n) :
    ∀ n ∈ (reconcile previous parsed speculative).1, P n := by
  have hfresh : ∀ k, ∀ n ∈ parsed.drop k, P n := fun k n hn => hparsed n (List.mem_of_mem_drop hn)
  refine List.forall_mem_append.mpr ⟨fun n hn => hprevious n (List.mem_of_mem_take hn), ?_⟩
  cases speculative with
  | false => exact hfresh _
  | true => exact forall_mem_markLast hflags (hfresh _)

end Reconciled

/-- A reading with the mark that it gets on its own. -/
def markedReading (speculative : Bool) (parsed : List Node) : List Node :=
  if speculative then markLast parsed else parsed

/-- The nodes are a reading without flags that has been marked. -/
def IsMarkedReading (nodes : List Node) : Prop :=
  ∃ speculative parsed, (∀ n ∈ parsed, n.Unflagged) ∧ nodes = markedReading speculative parsed

/-- A node without flags, or with the mark of a speculative node as its only flag. -/
def Node.FlaggedAtMostSpeculative (n : Node) : Prop :=
  n.Unflagged ∨ ∃ m : Node, m.Unflagged ∧ n = m.addFlags .speculative

theorem flaggedAtMostSpeculative_of_mem_markLast {parsed : List Node}
    (h : ∀ n ∈ parsed, n.Unflagged) : ∀ n ∈ markLast parsed, n.FlaggedAtMostSpeculative := by
  fun_induction markLast parsed with
  | case1 => simp
  | case2 m =>
    intro n hn
    obtain rfl := List.mem_singleton.mp hn
    exact Or.inr ⟨m, h m List.mem_cons_self, rfl⟩
  | case3 m m' ms ih =>
    intro n hn
    rcases List.mem_cons.mp hn with rfl | hn
    · exact Or.inl (h n List.mem_cons_self)
    · exact ih (fun k hk => h k (List.mem_cons_of_mem m hk)) n hn

theorem IsMarkedReading.flaggedAtMostSpeculative {nodes : List Node} (h : IsMarkedReading nodes) :
    ∀ n ∈ nodes, n.FlaggedAtMostSpeculative := by
  obtain ⟨speculative, parsed, hparsed, rfl⟩ := h
  cases speculative with
  | false => exact fun n hn => Or.inl (hparsed n hn)
  | true => exact flaggedAtMostSpeculative_of_mem_markLast hparsed

/-- A node that is kept is the node of the new reading with the mark it is due. -/
theorem Node.FlaggedAtMostSpeculative.eq_of_sameContent {p n : Node}
    (hp : p.FlaggedAtMostSpeculative) (hn : n.Unflagged) (h : p.sameContent n = true) :
    p = if p.hasFlag .speculative then n.addFlags .speculative else n := by
  rcases hp with hp | ⟨m, hm, rfl⟩
  · rw [hp.hasFlag_speculative]
    exact hp.eq_of_sameContent hn h
  · rw [sameContent_addFlags_left] at h
    rw [hm.hasFlag_speculative_addFlags, hm.eq_of_sameContent hn h]
    rfl

/-- The kept nodes and the marked rest are the marked reading. The induction is on the two readings
side by side, as far as nodes are kept. -/
theorem take_append_markedReading_drop (speculative : Bool) {previous parsed : List Node}
    (hprevious : ∀ p ∈ previous, p.FlaggedAtMostSpeculative) (hparsed : ∀ n ∈ parsed, n.Unflagged) :
    previous.take (reusedCount speculative previous parsed) ++
        markedReading speculative (parsed.drop (reusedCount speculative previous parsed)) =
      markedReading speculative parsed := by
  fun_induction reusedCount speculative previous parsed with
  | case2 => rfl
  | case3 => rfl
  | case1 p ps n ns hkeep ih =>
    rw [Bool.and_eq_true, beq_iff_eq] at hkeep
    obtain ⟨hflag, hsame⟩ := hkeep
    have hp := (hprevious p List.mem_cons_self).eq_of_sameContent
      (hparsed n List.mem_cons_self) hsame
    have hrest := ih (fun q hq => hprevious q (List.mem_cons_of_mem p hq))
      (fun m hm => hparsed m (List.mem_cons_of_mem n hm))
    rw [List.take_succ_cons, List.drop_succ_cons, List.cons_append, hrest, hp, hflag]
    -- The mark is due on the last node of a completed reading and nowhere else.
    cases speculative with
    | false => rfl
    | true =>
      cases ns with
      | nil => rfl
      | cons m ms => rfl

/-- An earlier reading leaves no trace in a later one: if the engine sets no flags, reconciling
gives the later reading as it is marked on its own. -/
theorem reconcile_eq_markedReading (speculative : Bool) {previous parsed : List Node}
    (hprevious : IsMarkedReading previous) (hparsed : ∀ n ∈ parsed, n.Unflagged) :
    (reconcile previous parsed speculative).1 = markedReading speculative parsed :=
  take_append_markedReading_drop speculative hprevious.flaggedAtMostSpeculative hparsed

end LiveMarkdown
