import Mathlib.Data.List.Forall2
import LiveMarkdown.Proofs.Stream.Marking

/-!
# What reconciling keeps

A node of an earlier reading is kept if nothing in front of it has changed, it has the content of
the node in its place, and it bears the mark of a speculative node exactly when the new reading asks
for it there. The mark is part of the test because it depends on the place: it is due on the last
node of a completed reading, so that the same node may have to lose it, or get it, when the readings
differ in length. Whatever flags the earlier nodes bear, the reconciled reading is the new one up to
flags, marked where it has to be, and it starts with as many of the earlier nodes as this allows.

## Main definitions

* `isDue`: whether the node at a place of a reading has to be marked.
* `Node.Fits`: whether a node may be kept for another one.

## Main results

* `fits_of_lt_reusedCount`, `not_fits_reusedCount`: exactly the nodes in front of the first misfit
  are kept.
* `getElem?_reconcile`: the reconciled reading, place by place.
* `reconcile_sound_and_maximal`: what comes out of it, and what is told about it.
-/

namespace LiveMarkdown

/-- Whether the node at a place of a reading has to be marked as speculative, given the number of
nodes. -/
def isDue (speculative : Bool) (count i : Nat) : Bool :=
  speculative && i + 1 == count

namespace Node

theorem flags_addFlags (f : NodeFlags) (n : Node) : (n.addFlags f).flags = n.flags.union f :=
  flags_withFlags _ n

/-- The mark can be read off again, whatever other flags there are. -/
theorem hasFlag_addFlags_speculative (n : Node) :
    (n.addFlags .speculative).hasFlag .speculative = true := by
  have hbits : (n.flags.bits ||| 2) &&& 2 ≠ 0 := by
    rw [Nat.and_or_distrib_right]
    simp [Nat.or_eq_zero_iff]
  rw [hasFlag, flags_addFlags]
  simpa [NodeFlags.meets, NodeFlags.union, NodeFlags.speculative] using hbits

/-- The node, marked as speculative if that is due. -/
def markedIf (due : Bool) (n : Node) : Node :=
  if due then n.addFlags .speculative else n

/-- Whether a node may be kept for a node of the new reading, which may have to be marked. -/
def Fits (n : Node) (due : Bool) (p : Node) : Prop :=
  p.hasFlag .speculative = due ∧ p.sameContent n = true

theorem fits_markedIf {n : Node} (hn : n.hasFlag .speculative = false) (due : Bool) :
    n.Fits due (n.markedIf due) := by
  cases due with
  | false => exact ⟨hn, sameContent_refl n⟩
  | true => exact ⟨hasFlag_addFlags_speculative n,
        (sameContent_addFlags_left _ n n).trans (sameContent_refl n)⟩

end Node

/-! ### The nodes that are kept -/

theorem isDue_succ (speculative : Bool) (count i : Nat) :
    isDue speculative (count + 1) (i + 1) = isDue speculative count i := by
  simp [isDue]

theorem isDue_zero (speculative : Bool) (n : Node) (ns : List Node) :
    isDue speculative (n :: ns).length 0 = (speculative && ns.isEmpty) := by
  cases ns <;> simp [isDue]

variable {speculative : Bool} {previous parsed : List Node} {i : Nat} {p n : Node}

/-- Everything that is kept fits. -/
theorem fits_of_lt_reusedCount (hi : i < reusedCount speculative previous parsed)
    (hp : previous[i]? = some p) (hn : parsed[i]? = some n) :
    n.Fits (isDue speculative parsed.length i) p := by
  fun_induction reusedCount speculative previous parsed generalizing i with
  | case1 q qs m ms hkeep ih =>
    cases i with
    | zero =>
      obtain rfl : q = p := by simpa using hp
      obtain rfl : m = n := by simpa using hn
      rw [isDue_zero]
      simpa [Node.Fits] using hkeep
    | succ i =>
      rw [List.length_cons, isDue_succ]
      exact ih (Nat.lt_of_succ_lt_succ hi) hp hn
  | case2 => exact absurd hi (Nat.not_lt_zero i)
  | case3 => exact absurd hi (Nat.not_lt_zero i)

/-- What stands behind the kept nodes does not fit. -/
theorem not_fits_reusedCount (hp : previous[reusedCount speculative previous parsed]? = some p)
    (hn : parsed[reusedCount speculative previous parsed]? = some n) :
    ¬ n.Fits (isDue speculative parsed.length (reusedCount speculative previous parsed)) p := by
  fun_induction reusedCount speculative previous parsed with
  | case1 q qs m ms hkeep ih =>
    rw [List.length_cons, isDue_succ]
    exact ih hp hn
  | case2 q qs m ms hkeep =>
    obtain rfl : q = p := by simpa using hp
    obtain rfl : m = n := by simpa using hn
    rw [isDue_zero]
    simpa [Node.Fits] using hkeep
  | case3 ps ns hends =>
    cases ps with
    | nil => simp at hp
    | cons q qs =>
      cases ns with
      | nil => simp at hn
      | cons m ms => exact (hends q qs m ms rfl rfl).elim

/-! ### The reconciled reading -/

theorem getElem?_markLast (ns : List Node) (i : Nat) :
    (markLast ns)[i]? = ns[i]?.map (Node.markedIf (isDue true ns.length i)) := by
  fun_induction markLast ns generalizing i with
  | case1 => simp
  | case2 n => cases i <;> simp [isDue, Node.markedIf]
  | case3 n m ns ih =>
    cases i with
    | zero => simp [isDue, Node.markedIf]
    | succ i => rw [List.length_cons, isDue_succ, List.getElem?_cons_succ,
          List.getElem?_cons_succ, ih]

theorem getElem?_markedReading (speculative : Bool) (ns : List Node) (i : Nat) :
    (markedReading speculative ns)[i]? =
      ns[i]?.map (Node.markedIf (isDue speculative ns.length i)) := by
  cases speculative with
  | true => exact getElem?_markLast ns i
  | false =>
    have hid : Node.markedIf (isDue false ns.length i) = id := rfl
    rw [hid, Option.map_id]
    rfl

/-- What is due at a place does not depend on whether it is counted from the first node or from a
later one. -/
theorem isDue_sub {count k : Nat} (hi : k ≤ i) (hcount : k ≤ count) :
    isDue speculative (count - k) (i - k) = isDue speculative count i := by
  have hplace : (i - k + 1 == count - k) = (i + 1 == count) := by
    rw [Bool.eq_iff_iff, beq_iff_eq, beq_iff_eq]
    omega
  rw [isDue, isDue, hplace]

/-- Up to the first misfit the reconciled reading consists of the earlier nodes, from there on of
the new ones, marked where it is due. -/
theorem getElem?_reconcile (previous parsed : List Node) (speculative : Bool) (i : Nat) :
    (reconcile previous parsed speculative).1[i]? =
      if i < reusedCount speculative previous parsed then previous[i]?
      else parsed[i]?.map (Node.markedIf (isDue speculative parsed.length i)) := by
  have hle := reusedCount_le_right speculative previous parsed
  have hlength : (previous.take (reusedCount speculative previous parsed)).length =
      reusedCount speculative previous parsed :=
    List.length_take_of_le (reusedCount_le_left speculative previous parsed)
  change (previous.take _ ++ markedReading speculative (parsed.drop _))[i]? = _
  by_cases hi : i < reusedCount speculative previous parsed
  · rw [if_pos hi, List.getElem?_append_left (hlength.symm ▸ hi), List.getElem?_take_of_lt hi]
  · have hi' := Nat.le_of_not_lt hi
    rw [if_neg hi, List.getElem?_append_right (hlength.symm ▸ hi'), hlength, getElem?_markedReading,
      List.getElem?_drop, Nat.add_sub_cancel' hi', List.length_drop, isDue_sub hi' hle]

/-- Reconciling is sound, and it keeps as much as it can. With `kept` the number of kept nodes, the
reconciled reading has as many nodes as the new one and the same content, it starts with the first
`kept` earlier nodes, and exactly its last node is marked if the reading was completed. The first
earlier node that is not kept differs in content from the node in its place, or in the mark that is
due there. The diagnostics tell what was kept and what was replaced. -/
theorem reconcile_sound_and_maximal (previous : List Node) {parsed : List Node} (speculative : Bool)
    (hparsed : ∀ n ∈ parsed, n.hasFlag .speculative = false) :
    let kept := reusedCount speculative previous parsed
    let result := (reconcile previous parsed speculative).1
    kept ≤ previous.length ∧ kept ≤ parsed.length ∧ result.length = parsed.length ∧
      List.Forall₂ (fun a b => a.sameContent b = true) result parsed ∧
      result.take kept = previous.take kept ∧
      (∀ i n, result[i]? = some n →
        n.hasFlag .speculative = (speculative && i + 1 == result.length)) ∧
      (∀ p n, previous[kept]? = some p → parsed[kept]? = some n →
        p.sameContent n = false ∨
          p.hasFlag .speculative ≠ (speculative && kept + 1 == parsed.length)) ∧
      (reconcile previous parsed speculative).2 =
        (if 0 < kept then [.nodesReused kept] else []) ++
          (if kept < parsed.length then [.nodesReplaced (parsed.length - kept)
            (previous.length - kept)] else []) := by
  intro kept result
  have hlength : result.length = parsed.length := length_reconcile previous parsed speculative
  have hle : kept ≤ previous.length := reusedCount_le_left speculative previous parsed
  have hle' : kept ≤ parsed.length := reusedCount_le_right speculative previous parsed
  -- every node of the result has the content of the new one in its place, and the mark that is due
  have hfits : ∀ i (p n : Node), result[i]? = some p → parsed[i]? = some n →
      n.Fits (isDue speculative parsed.length i) p := by
    intro i p n hp hn
    rw [getElem?_reconcile] at hp
    split at hp
    · exact fits_of_lt_reusedCount ‹_› hp hn
    · obtain rfl : n.markedIf (isDue speculative parsed.length i) = p := by simpa [hn] using hp
      exact Node.fits_markedIf (hparsed n (List.mem_of_getElem? hn)) _
  refine ⟨hle, hle', hlength, ?_, ?_, ?_, ?_, ?_⟩
  · refine List.forall₂_iff_get.mpr ⟨hlength, fun i hi hi' => ?_⟩
    exact (hfits i _ _ (List.getElem?_eq_getElem hi) (List.getElem?_eq_getElem hi')).2
  · exact List.take_left' (List.length_take_of_le hle)
  · intro i p hp
    have hi : i < parsed.length := hlength ▸ (List.getElem?_eq_some_iff.mp hp).1
    rw [hlength]
    exact (hfits i p _ hp (List.getElem?_eq_getElem hi)).1
  · intro p n hp hn
    have hmisfit := not_fits_reusedCount hp hn
    rw [Node.Fits, not_and_or] at hmisfit
    exact hmisfit.symm.imp_left Bool.eq_false_iff.mpr
  · have hreplaced :
        (if speculative then markLast (parsed.drop kept) else parsed.drop kept).length =
        parsed.length - kept := by
      split <;> simp [length_markLast]
    simp only [reconcile, hreplaced, kept, Nat.sub_pos_iff_lt]

/-- A paragraph is added to a completed reading of two, the first of which bears a flag of its own:
it is kept with it, but the second one loses its mark and is therefore replaced, although its
content is the same. -/
theorem reconcile_sound_and_maximal_with_longer_reading :
    let a := Node.paragraph [.text "a"]
    let b := Node.paragraph [.text "*b*"]
    let c := Node.paragraph []
    let previous := [a.markSynthetic, b.addFlags .speculative]
    let r := reconcile previous [a, b, c] true
    (∀ n ∈ [a, b, c], n.hasFlag .speculative = false) ∧
      r.1 = [a.markSynthetic, b, c.addFlags .speculative] ∧
      r.2 = [.nodesReused 1, .nodesReplaced 2 1] ∧ (b.addFlags .speculative).sameContent b = true ∧
      List.Forall₂ (fun a b => a.sameContent b = true) r.1 [a, b, c] := by
  intro a b c previous r
  have hparsed : ∀ n ∈ [a, b, c], n.hasFlag .speculative = false := by decide
  obtain ⟨-, -, -, hcontent, -, -, -, htold⟩ := reconcile_sound_and_maximal previous true hparsed
  have hkept : reusedCount true previous [a, b, c] = 1 := by decide
  rw [hkept] at htold
  exact ⟨hparsed, by cbv, htold, by decide, hcontent⟩

end LiveMarkdown
