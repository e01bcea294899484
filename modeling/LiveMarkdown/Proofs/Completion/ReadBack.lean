import LiveMarkdown.Proofs.Completion.Openers

/-!
# Openers that are read back

The openers of what is carried over are written one behind another, with nothing between them, and a
later scan has to cut them into runs again. It finds the same constructs only under conditions on
neighbouring openers: markers of one character fuse into one run, a run between two others first
closes what it can, and backticks that stand alone may be taken for a fence. These conditions are
also necessary, since a run that is not read back leaves fewer characters on the stack than it has,
and nothing behind it makes up for them.

## Main definitions

* `CarriedOver`: the constructs that can be carried over.
* `OpenConstruct.IsReadBack`, `AreReadBack`: the conditions, for one opener and for all of them.

## Main results

* `areReadBack_run_iff`: the conditions, run by run.
* `CarriedOver.areReadBack_of_distinct`: they hold of markers of different characters.
* `InlineState.scan_openersOf_iff`: the scan opens the constructs again exactly under the
  conditions.
-/

namespace LiveMarkdown

variable {c : Char} {constructs below rest : List OpenConstruct} {marker single double : Marker}

/-- Constructs that are carried over, outermost first: markers, and behind them at most one code
span or formula. -/
inductive CarriedOver : List OpenConstruct → Prop
  | nil : CarriedOver []
  | codeSpan {run : Nat} (h : 0 < run) : CarriedOver [.codeSpan run]
  | math : CarriedOver [.math false false]
  | delimiter (marker : Marker) {rest : List OpenConstruct} (h : CarriedOver rest) :
      CarriedOver (.delimiter marker :: rest)

theorem CarriedOver.belowRun (h : CarriedOver constructs) (c : Char) :
    CarriedOver (belowRun c constructs) := by
  induction h with
  | delimiter marker h ih =>
    rw [LiveMarkdown.belowRun]
    split
    · exact ih
    · exact .delimiter marker h
  | nil => exact .nil
  | codeSpan h => exact .codeSpan h
  | math => exact .math

theorem CarriedOver.length_opener_pos (h : CarriedOver constructs) :
    ∀ x ∈ constructs, 0 < x.opener.length := by
  induction h with
  | nil => simp
  | codeSpan hrun => simpa [OpenConstruct.opener] using hrun
  | math => simp [OpenConstruct.opener]
  | delimiter marker _ ih =>
    exact List.forall_mem_cons.mpr ⟨OpenConstruct.length_opener_pos_of_not_literal rfl, ih⟩

/-! ### The conditions -/

/-- A construct that is opened behind the constructs `below`, innermost first, and in front of
`rest` is read back. A code span that nothing precedes must not look like a fence. A marker behind
another one of its character has to stack up. Any other marker starts a run, which must not close
anything: it cannot at either end of the openers, nor if the innermost marker of its character is
longer. -/
def OpenConstruct.IsReadBack (below rest : List OpenConstruct) : OpenConstruct → Prop
  | .delimiter marker =>
    if closerRun marker.char below = 0 then
      below = [] ∨ belowRun marker.char rest = [] ∨
        ∀ p ∈ findOpener? marker.char below, marker.length + closerRun marker.char rest < p.1.length
    else marker.Stacks
  | .codeSpan run => below = [] → run < 3
  | _ => True

/-- All of the constructs, outermost first, are read back behind the constructs `below`. -/
def AreReadBack (below : List OpenConstruct) : List OpenConstruct → Prop
  | [] => True
  | x :: rest => x.IsReadBack below rest ∧ AreReadBack (x :: below) rest

instance (below rest : List OpenConstruct) (x : OpenConstruct) :
    Decidable (x.IsReadBack below rest) := by
  cases x <;> unfold OpenConstruct.IsReadBack <;> infer_instance

instance decidableAreReadBack (below : List OpenConstruct) :
    (constructs : List OpenConstruct) → Decidable (AreReadBack below constructs)
  | [] => isTrue trivial
  | x :: rest =>
    have := decidableAreReadBack (x :: below) rest
    inferInstanceAs (Decidable (_ ∧ _))

-- Two single markers fuse into a double one, which may then close another one of its kind.
example : ¬ AreReadBack [] [.delimiter .star, .delimiter .star] := by decide
example : AreReadBack []
    [.delimiter .star, .delimiter .doubleStar, .delimiter .underscore, .codeSpan 3] := by decide

/-- Behind a marker of the character, all markers of the run have to stack up. -/
theorem areReadBack_iff_of_inRun (hbelow : closerRun c below ≠ 0)
    (constructs : List OpenConstruct) :
    AreReadBack below constructs ↔
      (∀ other, .delimiter other ∈ topRun c constructs → other.Stacks) ∧
        AreReadBack ((topRun c constructs).reverse ++ below) (belowRun c constructs) := by
  fun_induction topRun c constructs generalizing below with
  | case1 marker rest hc ih =>
    have hbelow' : closerRun c (.delimiter marker :: below) ≠ 0 :=
      Nat.ne_of_gt (hc ▸ closerRun_cons_self_pos marker below)
    rw [AreReadBack, OpenConstruct.IsReadBack, hc, if_neg hbelow, ih hbelow', belowRun, if_pos hc]
    simp [forall_and, or_imp, and_assoc]
  | case2 marker rest hc => simp [belowRun, hc]
  | case3 constructs hne =>
    have hrest : belowRun c constructs = constructs := by
      unfold belowRun
      split
      · exact absurd rfl (hne _ _)
      · rfl
    simp [hrest]

/-- A run is read back if it closes nothing, counts and opens the markers that it is made of. -/
theorem areReadBack_run_iff (hmarkers : markersOf? marker.char = some (single, double))
    (hbelow : closerRun marker.char below = 0) (rest : List OpenConstruct) :
    AreReadBack below (.delimiter marker :: rest) ↔
      ((below = [] ∨ belowRun marker.char rest = [] ∨
          closeRun marker.char false below (closerRun marker.char (.delimiter marker :: rest)) =
            ⟨below, closerRun marker.char (.delimiter marker :: rest), 0⟩) ∧
        countsAsRun marker.char (closerRun marker.char (.delimiter marker :: rest)) = true ∧
        openedBy marker.char single double (closerRun marker.char (.delimiter marker :: rest)) =
          (.delimiter marker :: topRun marker.char rest).reverse) ∧
      AreReadBack ((.delimiter marker :: topRun marker.char rest).reverse ++ below)
        (belowRun marker.char rest) := by
  have hpos := marker.length_pos
  have hrun := closerRun_cons_self_pos marker below
  rw [AreReadBack, areReadBack_iff_of_inRun (Nat.ne_of_gt hrun), OpenConstruct.IsReadBack,
    if_pos hbelow, closerRun_cons_self, closeRun_eq_self_iff (by omega),
    ← openerLength_topRun marker.char rest, openedBy_eq_reverse_iff hmarkers fun x hx =>
      exists_of_mem_topRun hx]
  simp [and_assoc]

theorem closerRun_eq_zero (h : ∀ marker, .delimiter marker ∈ below → marker.char ≠ c) :
    closerRun c below = 0 := by
  unfold closerRun
  split
  · rw [if_neg (h _ List.mem_cons_self)]
  · rfl

theorem findOpener?_eq_none (h : ∀ marker, .delimiter marker ∈ below → marker.char ≠ c) :
    findOpener? c below = none := by
  fun_induction findOpener? c below with
  | case1 => rfl
  | case2 => rfl
  | case3 marker below hc => exact absurd hc (h marker List.mem_cons_self)
  | case4 marker below hc ih => exact ih fun other hother => h other (List.mem_cons_of_mem _ hother)
  | case5 x below _ _ ih => exact ih fun other hother => h other (List.mem_cons_of_mem _ hother)

/-- Markers of different characters are read back, and so is what is behind them. -/
theorem CarriedOver.areReadBack_of_distinct (h : CarriedOver constructs)
    (hdistinct : constructs.Pairwise fun x y => ∀ a b, x = .delimiter a → y = .delimiter b →
      a.char ≠ b.char)
    (hbelow : ∀ a b, .delimiter a ∈ below → .delimiter b ∈ constructs → a.char ≠ b.char)
    (hspan : ∀ run, constructs = [.codeSpan run] → below = [] → run < 3) :
    AreReadBack below constructs := by
  induction h generalizing below with
  | nil => exact trivial
  | @codeSpan run _ => exact ⟨hspan run rfl, trivial⟩
  | math => exact ⟨trivial, trivial⟩
  | @delimiter marker rest _ ih =>
    obtain ⟨hmarker, hrest⟩ := List.pairwise_cons.mp hdistinct
    have hother : ∀ other, .delimiter other ∈ below → other.char ≠ marker.char :=
      fun other hother => hbelow other marker hother List.mem_cons_self
    refine ⟨?_, ih hrest (fun a b ha hb => ?_) fun _ _ hnil => absurd hnil (List.cons_ne_nil _ _)⟩
    · rw [OpenConstruct.IsReadBack, if_pos (closerRun_eq_zero hother), findOpener?_eq_none hother]
      simp
    · rcases List.mem_cons.mp ha with ha | ha
      · exact hmarker _ hb a b ha.symm rfl
      · exact hbelow a b ha (List.mem_cons_of_mem _ hb)

/-! ### The text of the openers -/

theorem openersOf_append (xs ys : List OpenConstruct) :
    openersOf (xs ++ ys) = openersOf xs ++ openersOf ys :=
  List.flatMap_append

theorem openersOf_eq_replicate {xs : List OpenConstruct}
    (h : ∀ x ∈ xs, ∃ marker : Marker, marker.char = c ∧ x = .delimiter marker) :
    openersOf xs = List.replicate (openerLength xs) c := by
  induction xs with
  | nil => rfl
  | cons x xs ih =>
    obtain ⟨⟨marker, rfl, rfl⟩, hxs⟩ := List.forall_mem_cons.mp h
    rw [openersOf_cons, ih hxs, openerLength_cons, ← List.replicate_append_replicate,
      length_opener_delimiter]
    rfl

/-- The openers start with the run of the markers on top. -/
theorem openersOf_eq_run_append (c : Char) (constructs : List OpenConstruct) :
    openersOf constructs =
      List.replicate (closerRun c constructs) c ++ openersOf (belowRun c constructs) := by
  have h := congrArg openersOf (topRun_append_belowRun c constructs)
  rw [openersOf_append, openersOf_eq_replicate fun x hx => exists_of_mem_topRun hx,
    openerLength_topRun] at h
  exact h.symm

theorem exists_openersOf_delimiter (marker : Marker) (rest : List OpenConstruct)
    (more : List Char) :
    ∃ k, closerRun marker.char (.delimiter marker :: rest) = k + 1 ∧
      openersOf (.delimiter marker :: rest) ++ more = marker.char ::
        (List.replicate k marker.char ++ (openersOf (belowRun marker.char rest) ++ more)) := by
  obtain ⟨k, hk⟩ := Nat.exists_eq_add_of_lt (closerRun_cons_self_pos marker rest)
  rw [Nat.zero_add] at hk
  refine ⟨k, hk, ?_⟩
  rw [openersOf_eq_run_append marker.char, belowRun_cons_self, hk, List.replicate_succ,
    List.cons_append, List.cons_append, List.append_assoc]

/-- Openers start with punctuation: with the character of a marker, a backtick or a dollar sign. -/
theorem CarriedOver.openersOf_cases (h : CarriedOver constructs) :
    constructs = [] ∨
      (∃ marker rest more, constructs = .delimiter marker :: rest ∧
        openersOf constructs = marker.char :: more) ∨
      ∃ y more, (y = '`' ∨ y = '$') ∧ openersOf constructs = y :: more := by
  cases h with
  | nil => exact Or.inl rfl
  | @codeSpan run hrun =>
    refine Or.inr (Or.inr ⟨'`', List.replicate (run - 1) '`', Or.inl rfl, ?_⟩)
    rw [openersOf_cons, openersOf_nil, List.append_nil, OpenConstruct.opener, ← List.replicate_succ,
      Nat.sub_add_cancel hrun]
  | math => exact Or.inr (Or.inr ⟨'$', [], Or.inr rfl, rfl⟩)
  | @delimiter marker rest _ =>
    refine Or.inr
      (Or.inl ⟨marker, rest, List.replicate (marker.length - 1) marker.char ++ openersOf rest,
        rfl, ?_⟩)
    rw [openersOf_cons, OpenConstruct.opener, Marker.text, ← List.cons_append,
      ← List.replicate_succ, Nat.sub_add_cancel marker.length_pos]

theorem CarriedOver.ofChar?_head? (h : CarriedOver constructs) :
    CharClass.ofChar? (openersOf constructs ++ ['x']).head? =
      if constructs = [] then .letter else .punctuation := by
  rcases h.openersOf_cases with rfl | ⟨marker, rest, more, rfl, heq⟩ | ⟨y, more, hy, heq⟩
  · rfl
  · rw [heq, if_neg (List.cons_ne_nil _ _)]
    cases marker <;> rfl
  · rw [heq, if_neg (by rintro rfl; cases heq)]
    rcases hy with rfl | rfl <;> rfl

theorem CarriedOver.head?_ne (h : CarriedOver constructs) (marker : Marker) :
    (openersOf (LiveMarkdown.belowRun marker.char constructs) ++ ['x']).head? ≠
      some marker.char := by
  rcases (h.belowRun marker.char).openersOf_cases with hnil | ⟨other, rest, more, hrest, heq⟩ |
    ⟨y, more, hy, heq⟩
  · rw [hnil]
    cases marker <;> decide
  · rw [heq, List.cons_append, List.head?_cons, ne_eq, Option.some.injEq]
    exact char_ne_of_belowRun_eq_cons hrest
  · rw [heq, List.cons_append, List.head?_cons, ne_eq, Option.some.injEq]
    rcases hy with rfl | rfl <;> cases marker <;> decide

/-! ### Scanning the openers -/

/-- Behind nothing or another opener, and in front of another opener or a letter, a run always
opens. -/
theorem canOpen_of_classes {previous next : CharClass}
    (hprevious : previous = .whiteSpace ∨ previous = .punctuation)
    (hnext : next = .letter ∨ next = .punctuation) (marker : Marker) :
    marker.delimiter.canOpen previous next = true := by
  rcases hprevious with rfl | rfl <;> rcases hnext with rfl | rfl <;> cases marker <;> rfl

/-- A run closes between two other openers only. -/
theorem canClose_eq_of_classes {previous next : CharClass}
    (hprevious : previous = .whiteSpace ∨ previous = .punctuation)
    (hnext : next = .letter ∨ next = .punctuation) (marker : Marker) :
    marker.delimiter.canClose previous next =
      (previous == .punctuation && next == .punctuation) := by
  rcases hprevious with rfl | rfl <;> rcases hnext with rfl | rfl <;> cases marker <;> rfl

namespace InlineState

variable (line : InlineLine) {st : InlineState} {before : List Char}

/-- The scan of a run of openers, up to the next run. -/
theorem scan_openersOf_delimiter (hst : ∀ x ∈ st.stack.head?, x.isLiteral = false)
    (hrest : CarriedOver rest)
    (hbefore : CharClass.ofChar? before.head? = .whiteSpace ∨
      CharClass.ofChar? before.head? = .punctuation)
    (hmarkers : markersOf? marker.char = some (single, double)) :
    ∃ st' before', st'.stack = afterRun marker.char single double
          (CharClass.ofChar? before.head? == .punctuation && !(belowRun marker.char rest).isEmpty)
          (closerRun marker.char (.delimiter marker :: rest)) st.stack ∧
      CharClass.ofChar? before'.head? = .punctuation ∧
      scan line st before (openersOf (.delimiter marker :: rest) ++ ['x']) =
        scan line st' before' (openersOf (belowRun marker.char rest) ++ ['x']) := by
  obtain ⟨single', double', hmarkers', hsingle, hstep⟩ := exists_markersOf?_char marker
  obtain ⟨rfl, rfl⟩ := Prod.mk.inj (Option.some.inj (hmarkers.symm.trans hmarkers'))
  -- The run takes the characters of all openers it is made of, and no other follows them.
  obtain ⟨k, hk, htext⟩ := exists_openersOf_delimiter marker rest ['x']
  have hmore := runLength_replicate_append (k := k) (hrest.head?_ne marker)
  have hnext : CharClass.ofChar? (openersOf (belowRun marker.char rest) ++ ['x']).head? =
      if belowRun marker.char rest = [] then .letter else .punctuation :=
    (hrest.belowRun marker.char).ofChar?_head?
  have hclass : (if belowRun marker.char rest = [] then CharClass.letter else .punctuation) =
      .letter ∨
      (if belowRun marker.char rest = [] then CharClass.letter else .punctuation) =
      .punctuation := by
    split
    · exact Or.inl rfl
    · exact Or.inr rfl
  have hbetween : ((if belowRun marker.char rest = [] then CharClass.letter else .punctuation) ==
      .punctuation) = !(belowRun marker.char rest).isEmpty := by
    cases belowRun marker.char rest <;> rfl
  have hend : (line.final && (openersOf (belowRun marker.char rest) ++ ['x']).isEmpty) = false := by
    simp
  refine ⟨{ st with stack := afterRun marker.char single double _ _ st.stack },
    List.replicate k marker.char ++ marker.char :: before, rfl, ?_, ?_⟩
  · cases k <;> cases marker <;> rfl
  · rw [htext, scan_cons, step_eq_stepMarkup line hst, hstep,
      stepDelimiters_eq line st before hmarkers, hmore, List.drop_left' List.length_replicate,
      List.take_left' List.length_replicate, List.reverse_replicate, hk, afterRun]
    by_cases hcounts : countsAsRun marker.char (k + 1) = true
    · simp only [hcounts, if_true, hend, hnext, runClosing_missing_of_not_atEnd]
      simp only [runClosing, runOpening, canClose_eq_of_classes hbefore hclass,
        canOpen_of_classes hbefore hclass, hbetween, hsingle, Bool.and_true, decide_eq_true_eq]
    · simp [hcounts]

/-- Inside a code span or a formula, and behind markers, a letter is text. -/
theorem scan_letter (st : InlineState) (before : List Char) : scan line st before ['x'] = st :=
  scan_singleton (by decide)

/-- A run of backticks opens a code span where it does not end the text. -/
theorem scan_openingTicks (hst : ∀ x ∈ st.stack.head?, x.isLiteral = false) (before : List Char)
    {run : Nat} (hrun : 0 < run) {after : List Char} (hne : after ≠ [])
    (hafter : after.head? ≠ some '`') :
    scan line st before (List.replicate run '`' ++ after) =
      scan line { st with stack := .codeSpan run :: st.stack } (List.replicate run '`' ++ before)
        after := by
  obtain ⟨k, rfl⟩ : ∃ k, run = k + 1 := ⟨run - 1, by omega⟩
  have hmore : runLength '`' (List.replicate k '`' ++ after) = k :=
    runLength_replicate_append hafter
  refine scan_replicate_append line before ?_
  rw [step_eq_stepMarkup line hst]
  change st.stepBackticks line (List.replicate k '`' ++ after) = _
  simp [stepBackticks, hmore, hne]

theorem scan_openersOf_codeSpan (hst : ∀ x ∈ st.stack.head?, x.isLiteral = false)
    (before : List Char) {run : Nat} (hrun : 0 < run) :
    (scan line st before (openersOf [.codeSpan run] ++ ['x'])).stack =
      .codeSpan run :: st.stack := by
  have htext : openersOf [.codeSpan run] = List.replicate run '`' := by
    rw [openersOf_cons, openersOf_nil, List.append_nil]
    rfl
  rw [htext, scan_openingTicks line hst before hrun (List.cons_ne_nil _ _) (by decide), scan_letter]

theorem scan_openersOf_math (hst : ∀ x ∈ st.stack.head?, x.isLiteral = false) (before : List Char) :
    (scan line st before (openersOf [.math false false] ++ ['x'])).stack =
      .math false false :: st.stack := by
  have hstep : st.stepMarkup line before '$' ['x'] =
      ({ st with stack := .math false false :: st.stack }, 0) := by
    change st.stepDollars line before ['x'] = _
    rfl
  change (scan line st before ['$', 'x']).stack = _
  rw [scan_cons, step_eq_stepMarkup line hst, hstep, List.drop_zero, scan_letter]

/-- The scan of openers adds at most as many characters to the stack as they have, and if it adds
all of them, it keeps the stack. The induction is on the runs. -/
theorem openerLength_scan_openersOf (hcarried : CarriedOver constructs)
    (hst : ∀ x ∈ st.stack, x.isLiteral = false)
    (hbefore : CharClass.ofChar? before.head? = .whiteSpace ∨
      CharClass.ofChar? before.head? = .punctuation) :
    openerLength (scan line st before (openersOf constructs ++ ['x'])).stack ≤
        openerLength st.stack + openerLength constructs ∧
      (openerLength (scan line st before (openersOf constructs ++ ['x'])).stack =
          openerLength st.stack + openerLength constructs →
        st.stack <:+ (scan line st before (openersOf constructs ++ ['x'])).stack) := by
  induction hlength : constructs.length using Nat.strongRecOn generalizing constructs st before with
  | ind n ih =>
    have hhead : ∀ x ∈ st.stack.head?, x.isLiteral = false :=
      fun x hx => hst x (List.mem_of_head? hx)
    cases hcarried with
    | nil =>
      rw [openersOf_nil, List.nil_append, scan_letter]
      exact ⟨Nat.le_refl _, fun _ => List.suffix_refl _⟩
    | codeSpan hrun =>
      rw [scan_openersOf_codeSpan line hhead before hrun, openerLength_cons, openerLength_cons,
        openerLength_nil, Nat.add_zero, Nat.add_comm]
      exact ⟨Nat.le_refl _, fun _ => List.suffix_cons _ _⟩
    | math =>
      rw [scan_openersOf_math line hhead before, openerLength_cons, openerLength_cons,
        openerLength_nil, Nat.add_zero, Nat.add_comm]
      exact ⟨Nat.le_refl _, fun _ => List.suffix_cons _ _⟩
    | @delimiter marker rest hrest =>
      obtain ⟨single, double, hmarkers, -⟩ := exists_markersOf?_char marker
      obtain ⟨st', before', hstack, hbefore', hscan⟩ :=
        scan_openersOf_delimiter line hhead hrest hbefore hmarkers
      rw [hscan]
      generalize (CharClass.ofChar? before.head? == .punctuation &&
        !(belowRun marker.char rest).isEmpty) = between at hstack
      have hshorter : (belowRun marker.char rest).length < n := by
        rw [← hlength, List.length_cons, Nat.lt_succ_iff]
        exact (belowRun_suffix marker.char rest).length_le
      have hrun := closerRun_cons_self_pos marker rest
      have htotal := openerLength_eq_run_add marker.char (.delimiter marker :: rest)
      rw [belowRun_cons_self] at htotal
      have hliteral : ∀ x ∈ st'.stack, x.isLiteral = false :=
        hstack ▸ isLiteral_of_mem_afterRun hmarkers hst between _
      obtain ⟨hle, hkeeps⟩ :=
        ih _ hshorter (hrest.belowRun marker.char) hliteral (Or.inr hbefore') rfl
      rw [hstack] at hle hkeeps
      rcases openerLength_afterRun hmarkers between hrun st.stack with hless | ⟨hcounts, hfree⟩
      · exact ⟨by omega, fun heq => absurd heq (by omega)⟩
      · have hopened := (openerLength_openedBy hmarkers hrun).2 hcounts
        rw [afterRun_of_free hrun hcounts hfree, openerLength_append, hopened] at hle hkeeps
        refine ⟨by omega, fun heq => ?_⟩
        exact (List.suffix_append _ _).trans (hkeeps (by omega))

/-- The scan of openers opens the constructs again exactly if all of them are read back. The
induction is on the runs: a run that is not read back leaves too few characters on the stack. -/
theorem scan_openersOf_iff (hcarried : CarriedOver constructs)
    (hst : ∀ x ∈ st.stack, x.isLiteral = false)
    (hbefore : CharClass.ofChar? before.head? = if st.stack = [] then .whiteSpace else .punctuation)
    (hfresh : ∀ marker rest, constructs = .delimiter marker :: rest →
      closerRun marker.char st.stack = 0)
    (hfence : ∀ run, constructs = [.codeSpan run] → st.stack = [] → run < 3) :
    (scan line st before (openersOf constructs ++ ['x'])).stack = constructs.reverse ++ st.stack ↔
      AreReadBack st.stack constructs := by
  induction hlength : constructs.length using Nat.strongRecOn generalizing constructs st before with
  | ind n ih =>
    have hhead : ∀ x ∈ st.stack.head?, x.isLiteral = false :=
      fun x hx => hst x (List.mem_of_head? hx)
    cases hcarried with
    | nil => simp [scan_letter, AreReadBack]
    | @codeSpan run hrun =>
      have hshort : st.stack = [] → run < 3 := hfence run rfl
      rw [scan_openersOf_codeSpan line hhead before hrun]
      simpa [AreReadBack, OpenConstruct.IsReadBack] using hshort
    | math =>
      rw [scan_openersOf_math line hhead before]
      simp [AreReadBack, OpenConstruct.IsReadBack]
    | @delimiter marker rest hrest =>
      have hclass : CharClass.ofChar? before.head? = .whiteSpace ∨
          CharClass.ofChar? before.head? = .punctuation := by
        rw [hbefore]
        split
        · exact Or.inl rfl
        · exact Or.inr rfl
      obtain ⟨single, double, hmarkers, -⟩ := exists_markersOf?_char marker
      obtain ⟨st', before', hstack, hbefore', hscan⟩ :=
        scan_openersOf_delimiter line hhead hrest hclass hmarkers
      have hbetween : (CharClass.ofChar? before.head? == .punctuation &&
          !(belowRun marker.char rest).isEmpty) = true ↔ st.stack ≠ [] ∧
        belowRun marker.char rest ≠ [] := by
        rw [hbefore]
        split <;> simp [*]
      generalize (CharClass.ofChar? before.head? == .punctuation &&
        !(belowRun marker.char rest).isEmpty) = between at hstack hbetween
      have hliteral : ∀ x ∈ st'.stack, x.isLiteral = false :=
        hstack ▸ isLiteral_of_mem_afterRun hmarkers hst between _
      -- The openers are those of the run and those behind it.
      have hbelow : CarriedOver (belowRun marker.char rest) := hrest.belowRun marker.char
      have hsplit := topRun_append_belowRun marker.char (.delimiter marker :: rest)
      have hlengthRun := openerLength_topRun marker.char (.delimiter marker :: rest)
      have hmarkersRun : ∀ x ∈ topRun marker.char (.delimiter marker :: rest),
          ∃ other : Marker, other.char = marker.char ∧ x = .delimiter other :=
        fun x hx => exists_of_mem_topRun hx
      have hneRun : topRun marker.char (.delimiter marker :: rest) ≠ [] := by
        simp [topRun_cons_self]
      rw [belowRun_cons_self] at hsplit
      rw [areReadBack_run_iff hmarkers (hfresh marker rest rfl), hscan, ← topRun_cons_self]
      have hrun := closerRun_cons_self_pos marker rest
      generalize closerRun marker.char (.delimiter marker :: rest) = k at *
      generalize topRun marker.char (.delimiter marker :: rest) = run at *
      rw [← hsplit, List.reverse_append, List.append_assoc]
      have hrec (hreadBack : st'.stack = run.reverse ++ st.stack) :
          (scan line st' before' (openersOf (belowRun marker.char rest) ++ ['x'])).stack =
            (belowRun marker.char rest).reverse ++ (run.reverse ++ st.stack) ↔
            AreReadBack (run.reverse ++ st.stack) (belowRun marker.char rest) := by
        have hne : st'.stack ≠ [] := by simp [hreadBack, hneRun]
        rw [← hreadBack]
        refine ih _ ?_ hbelow hliteral (hbefore'.trans (if_neg hne).symm) ?_
          (fun _ _ hnil => absurd hnil hne) rfl
        · rw [← hlength, List.length_cons, Nat.lt_succ_iff]
          exact (belowRun_suffix marker.char rest).length_le
        · intro other more hother
          rw [hreadBack]
          exact closerRun_reverse_append hneRun hmarkersRun (char_ne_of_belowRun_eq_cons hother) _
      have hpos : ∀ x ∈ (belowRun marker.char rest).reverse ++ (run.reverse ++ st.stack),
          0 < x.opener.length := by
        intro x hx
        rw [List.mem_append, List.mem_append, List.mem_reverse, List.mem_reverse] at hx
        rcases hx with hx | hx | hx
        · exact hbelow.length_opener_pos x hx
        · obtain ⟨other, -, rfl⟩ := hmarkersRun x hx
          exact OpenConstruct.length_opener_pos_of_not_literal rfl
        · exact OpenConstruct.length_opener_pos_of_not_literal (hst x hx)
      constructor
      · intro heq
        obtain ⟨hle, hkeeps⟩ := openerLength_scan_openersOf line hbelow hliteral (Or.inr hbefore')
        rw [heq, hstack] at hle hkeeps
        obtain ⟨hcounts, hcloses, hopened⟩ :=
          afterRun_eq_of_length hmarkers between hrun hlengthRun hpos hle hkeeps
        refine ⟨⟨?_, hcounts, hopened⟩, (hrec ?_).mp heq⟩
        · by_cases hstackNe : st.stack = []
          · exact Or.inl hstackNe
          · by_cases hbelowNe : belowRun marker.char rest = []
            · exact Or.inr (Or.inl hbelowNe)
            · exact Or.inr (Or.inr (hcloses (hbetween.mpr ⟨hstackNe, hbelowNe⟩)))
        · rw [hstack, afterRun_of_free hrun hcounts hcloses, hopened]
      · rintro ⟨⟨hfree, hcounts, hopened⟩, hreadBack⟩
        have hcloses : between = true →
            closeRun marker.char false st.stack k = ⟨st.stack, k, 0⟩ := by
          intro hb
          obtain ⟨hstackNe, hbelowNe⟩ := hbetween.mp hb
          exact (hfree.resolve_left hstackNe).resolve_left hbelowNe
        refine (hrec ?_).mpr hreadBack
        rw [hstack, afterRun_of_free hrun hcounts hcloses, hopened]

end InlineState

end LiveMarkdown
