import LiveMarkdown.Proofs.Completion.Rescan

/-!
# Closers close what is open

The closers of a stack, put behind the text that has left it open, are read back one after another
from the innermost construct to the outermost. Closers of one character that follow each other form
one run, which closes as many markers as have given it their characters. Some characters count as
delimiters only in runs of a certain length, so that two such closers side by side may close
nothing; for all others this cannot happen.

## Main definitions

* `closersOf`: the closers of a stack.
* `closerRun`, `belowRun`: the run that the closers on top form, and what is below.
* `ClosersCount`: the runs of closers are delimiters.

## Main results

* `InlineState.scan_closersOf`: the closers of a stack close all of it.
-/

namespace LiveMarkdown

variable {c : Char} {stack below : List OpenConstruct} {marker : Marker}

/-- The closers of a stack, from the inside out. -/
def closersOf (stack : List OpenConstruct) : List Char :=
  stack.flatMap OpenConstruct.closer

@[simp] theorem closersOf_nil : closersOf [] = [] := rfl

@[simp] theorem closersOf_cons (x : OpenConstruct) (below : List OpenConstruct) :
    closersOf (x :: below) = x.closer ++ closersOf below := rfl

theorem OpenConstruct.closer_ne_nil {x : OpenConstruct} (h : x.IsSound) : x.closer ≠ [] := by
  cases x with
  | delimiter marker => cases marker <;> decide
  | codeSpan run => exact mt (List.replicate_eq_nil_iff _).mp (Nat.ne_of_gt h)
  | math display ownLine => cases display <;> cases ownLine <;> decide
  | linkLabel image footnote => cases footnote <;> exact List.cons_ne_nil _ _
  | linkDestination depth => exact mt (List.replicate_eq_nil_iff _).mp (Nat.ne_of_gt h)

theorem InlineState.IsQuiet.suffix_eq {st : InlineState} (h : st.IsQuiet) :
    st.suffix = closersOf st.stack := by
  obtain ⟨hpartial, hlabel⟩ := h
  simp [InlineState.suffix, hpartial, hlabel, closersOf]

/-! ### Runs of closers -/

/-- The length of the run of a character that the closers on top of a stack form. -/
def closerRun (c : Char) : List OpenConstruct → Nat
  | .delimiter marker :: below =>
    if marker.char = c then marker.length + closerRun c below else 0
  | _ => 0

/-- What is below the markers of a character on top of a stack. -/
def belowRun (c : Char) : List OpenConstruct → List OpenConstruct
  | .delimiter marker :: below =>
    if marker.char = c then belowRun c below else .delimiter marker :: below
  | stack => stack

/-- Every run that the closers of neighbouring markers form is a delimiter run. -/
def ClosersCount (stack : List OpenConstruct) : Prop :=
  ∀ marker below, .delimiter marker :: below <:+ stack →
    countsAsRun marker.char (closerRun marker.char (.delimiter marker :: below)) = true

theorem ClosersCount.of_suffix (h : ClosersCount stack) (hsuffix : below <:+ stack) :
    ClosersCount below :=
  fun marker rest hrest => h marker rest (hrest.trans hsuffix)

/-- Runs of asterisks and underscores are delimiter runs whatever their length. -/
theorem closersCount_of_forall_char
    (h : ∀ marker, .delimiter marker ∈ stack → marker.char = '*' ∨ marker.char = '_') :
    ClosersCount stack := by
  intro marker below hsuffix
  rcases h marker (hsuffix.subset List.mem_cons_self) with hchar | hchar <;>
  · rw [hchar]
    rfl

theorem closerRun_cons_self (marker : Marker) (below : List OpenConstruct) :
    closerRun marker.char (.delimiter marker :: below) =
      marker.length + closerRun marker.char below := by
  rw [closerRun, if_pos rfl]

theorem closerRun_of_ne_delimiter (c : Char)
    (h : ∀ marker below, stack ≠ .delimiter marker :: below) : closerRun c stack = 0 := by
  unfold closerRun
  split
  · exact absurd rfl (h _ _)
  · rfl

theorem belowRun_cons_self (marker : Marker) (below : List OpenConstruct) :
    belowRun marker.char (.delimiter marker :: below) = belowRun marker.char below := by
  rw [belowRun, if_pos rfl]

theorem belowRun_suffix (c : Char) (stack : List OpenConstruct) : belowRun c stack <:+ stack := by
  fun_induction belowRun c stack with
  | case1 marker below hc ih => exact ih.trans (List.suffix_cons _ _)
  | case2 marker below hc => exact List.suffix_refl _
  | case3 stack hstack => exact List.suffix_refl _

theorem closersOf_eq_replicate_append (c : Char) (stack : List OpenConstruct) :
    closersOf stack = List.replicate (closerRun c stack) c ++ closersOf (belowRun c stack) := by
  fun_induction belowRun c stack with
  | case1 marker below hc ih =>
    subst hc
    rw [closersOf_cons, closerRun_cons_self, ← List.replicate_append_replicate,
      List.append_assoc, ← ih]
    rfl
  | case2 marker below hc => rw [closerRun, if_neg hc]; rfl
  | case3 stack hstack =>
    rw [closerRun_of_ne_delimiter c hstack]
    rfl

/-- A run that the closers form closes the markers that it comes from. -/
theorem closeRun_closerRun (c : Char) (atEnd : Bool) (stack : List OpenConstruct) :
    closeRun c atEnd stack (closerRun c stack) = ⟨belowRun c stack, 0, 0⟩ := by
  fun_induction belowRun c stack with
  | case1 marker below hc ih =>
    subst hc
    have hpos := marker.length_pos
    rw [closerRun_cons_self, closeRun, if_neg (by omega), findOpener?, if_pos rfl]
    simp only
    rw [if_pos (Nat.le_add_right _ _), Nat.add_sub_cancel_left, ih]
  | case2 marker below hc =>
    rw [closerRun, if_neg hc, closeRun, if_pos rfl]
  | case3 stack hstack =>
    rw [closerRun_of_ne_delimiter c hstack, closeRun, if_pos rfl]

/-- A stack without literal constructs has a marker or a label on top, or nothing, and its closers
start with the closer of that. -/
theorem closersOf_cases (h : ∀ x ∈ stack, x.isLiteral = false) :
    stack = [] ∨
      (∃ marker below rest, stack = .delimiter marker :: below ∧
        closersOf stack = marker.char :: rest) ∨
      (∃ image footnote below rest, stack = .linkLabel image footnote :: below ∧
        closersOf stack = ']' :: rest) := by
  cases stack with
  | nil => exact Or.inl rfl
  | cons x below =>
    have hx := h x List.mem_cons_self
    cases x with
    | delimiter marker =>
      refine Or.inr (Or.inl ⟨marker, below, List.replicate (marker.length - 1) marker.char ++
        closersOf below, rfl, ?_⟩)
      rw [closersOf_cons, OpenConstruct.closer, Marker.text, ← List.cons_append,
        ← List.replicate_succ, Nat.sub_add_cancel marker.length_pos]
    | linkLabel image footnote =>
      refine Or.inr
        (Or.inr ⟨image, footnote, below, (closersOf (.linkLabel image footnote :: below)).tail,
        rfl, ?_⟩)
      cases footnote <;> rfl
    | codeSpan run => exact absurd hx Bool.true_eq_false.mp
    | math display ownLine => exact absurd hx Bool.true_eq_false.mp
    | linkDestination depth => exact absurd hx Bool.true_eq_false.mp

/-- What follows a closer is the end of the text or punctuation. -/
theorem ofChar?_head?_closersOf (h : ∀ x ∈ stack, x.isLiteral = false) :
    CharClass.ofChar? (closersOf stack).head? = .whiteSpace ∨
      CharClass.ofChar? (closersOf stack).head? = .punctuation := by
  rcases closersOf_cases h with rfl | ⟨marker, below, rest, -, heq⟩ | ⟨_, _, below, rest, -, heq⟩
  · exact Or.inl rfl
  · right
    rw [heq]
    cases marker <;> rfl
  · right
    rw [heq]
    rfl

theorem head?_closersOf_ne (h : ∀ x ∈ stack, x.isLiteral = false) (hbracket : c ≠ ']')
    (hmarker : ∀ marker : Marker, marker.char ≠ c) : (closersOf stack).head? ≠ some c := by
  rcases closersOf_cases h with rfl | ⟨marker, below, rest, -, heq⟩ | ⟨_, _, below, rest, -, heq⟩
  · simp
  · rw [heq, List.head?_cons, ne_eq, Option.some.injEq]
    exact hmarker marker
  · rw [heq, List.head?_cons, ne_eq, Option.some.injEq]
    exact hbracket.symm

/-- What is below the markers of a character does not start with another one. -/
theorem char_ne_of_belowRun_eq_cons (h : belowRun c stack = .delimiter marker :: below) :
    marker.char ≠ c := by
  fun_induction belowRun c stack with
  | case1 marker' below' hc ih => exact ih h
  | case2 marker' below' hc =>
    obtain ⟨hmarker, -⟩ := List.cons.inj h
    exact OpenConstruct.delimiter.inj hmarker ▸ hc
  | case3 stack hnot => exact absurd h (hnot _ _)

theorem head?_closersOf_belowRun_ne (h : ∀ x ∈ stack, x.isLiteral = false) (hc : c ≠ ']') :
    (closersOf (belowRun c stack)).head? ≠ some c := by
  have hbelow : ∀ x ∈ belowRun c stack, x.isLiteral = false :=
    fun x hx => h x ((belowRun_suffix c stack).subset hx)
  rcases closersOf_cases hbelow with hnil | ⟨marker, below, rest, hstack, heq⟩ |
    ⟨_, _, below, rest, -, heq⟩
  · simp [hnil]
  · rw [heq, List.head?_cons, ne_eq, Option.some.injEq]
    exact char_ne_of_belowRun_eq_cons hstack
  · rw [heq, List.head?_cons, ne_eq, Option.some.injEq]
    exact hc.symm

/-! ### Closers of markers and labels -/

/-- Behind text, and before a closer or the end of the text, a run closes. -/
theorem canClose_of_classes {previous next : CharClass} (hprevious : previous ≠ .whiteSpace)
    (hnext : next = .whiteSpace ∨ next = .punctuation) (marker : Marker) :
    marker.delimiter.canClose previous next = true := by
  rcases hnext with rfl | rfl <;> cases previous <;>
    first | exact absurd rfl hprevious | (cases marker <;> rfl)

theorem exists_markersOf?_char (marker : Marker) :
    ∃ single double, markersOf? marker.char = some (single, double) ∧ single.char = marker.char ∧
      ∀ (st : InlineState) (line : InlineLine) (before ahead : List Char),
        st.stepMarkup line before marker.char ahead =
          st.stepDelimiters line before marker.char single double ahead := by
  cases marker <;> exact ⟨_, _, rfl, rfl, fun _ _ _ _ => rfl⟩

theorem of_mem_incompleteLinkAddress {x : Char} (h : x ∈ incompleteLinkAddress) :
    x.isAlphanum = true ∨ x = ':' ∨ x = '-' := by
  have hall : incompleteLinkAddress.all (fun y => y.isAlphanum || y == ':' || y == '-') = true := by
    decide
  simpa [or_assoc] using List.all_eq_true.mp hall x h

namespace InlineState

variable (line : InlineLine) {before : List Char} (partialCloser : List Char) (labelClosed : Bool)

/-- The run that the closers on top form closes all markers it comes from. -/
theorem scan_closersOf_delimiter (hstack : ∀ x ∈ below, x.isLiteral = false)
    (hcount : ClosersCount (.delimiter marker :: below))
    (hbefore : CharClass.ofChar? before.head? ≠ .whiteSpace) :
    ∃ before', before'.head? = some marker.char ∧
      scan line ⟨.delimiter marker :: below, partialCloser, labelClosed⟩ before
          (closersOf (.delimiter marker :: below)) =
        scan line ⟨belowRun marker.char below, partialCloser, labelClosed⟩ before'
          (closersOf (belowRun marker.char below)) := by
  obtain ⟨single, double, hmarkers, hsingle, hstep⟩ := exists_markersOf?_char marker
  obtain ⟨k, hk⟩ : ∃ k, closerRun marker.char (.delimiter marker :: below) = k + 1 := by
    have hpos := marker.length_pos
    exact ⟨marker.length - 1 + closerRun marker.char below, by rw [closerRun_cons_self]; omega⟩
  have hbelow : ∀ x ∈ belowRun marker.char below, x.isLiteral = false :=
    fun x hx => hstack x ((belowRun_suffix marker.char below).subset hx)
  -- The run takes the characters of all closers it is made of, and no other follows them.
  have hclosers : closersOf (.delimiter marker :: below) =
      marker.char :: (List.replicate k marker.char ++ closersOf (belowRun marker.char below)) := by
    rw [closersOf_eq_replicate_append marker.char, belowRun_cons_self, hk, List.replicate_succ,
      List.cons_append]
  have hmore : runLength marker.char
      (List.replicate k marker.char ++ closersOf (belowRun marker.char below)) = k :=
    runLength_replicate_append
      (head?_closersOf_belowRun_ne hstack (by cases marker <;> decide))
  have hcounts : countsAsRun marker.char (k + 1) = true :=
    hk ▸ hcount marker below (List.suffix_refl _)
  have hcanClose := canClose_of_classes hbefore (ofChar?_head?_closersOf hbelow) single
  have hclose : ∀ atEnd, closeRun marker.char atEnd (.delimiter marker :: below) (k + 1) =
      ⟨belowRun marker.char below, 0, 0⟩ := by
    intro atEnd
    rw [← hk, closeRun_closerRun, belowRun_cons_self]
  refine ⟨List.replicate k marker.char ++ marker.char :: before, ?_, ?_⟩
  · cases k <;> rfl
  · have hmarkup :
        ∀ ahead, step line ⟨.delimiter marker :: below, partialCloser, labelClosed⟩ before
        marker.char ahead =
        stepDelimiters line ⟨.delimiter marker :: below, partialCloser, labelClosed⟩ before
          marker.char single double ahead := fun ahead => hstep _ line before ahead
    rw [hclosers, scan_cons, hmarkup, stepDelimiters_eq line _ before hmarkers, hmore]
    simp only [hcounts, if_true, List.drop_left' (List.length_replicate),
      List.take_left' (List.length_replicate), List.reverse_replicate, runClosing, hcanClose,
      hsingle, hclose, runOpening]
    rfl

/-- An address goes on over characters that are neither parentheses nor backslashes. -/
theorem scan_linkDestination_append {depth : Nat} {cs rest : List Char}
    (hcs : ∀ x ∈ cs, x ≠ '\\' ∧ x ≠ '(' ∧ x ≠ ')') :
    scan line ⟨.linkDestination depth :: below, partialCloser, labelClosed⟩ before (cs ++ rest) =
      scan line ⟨.linkDestination depth :: below, partialCloser, labelClosed⟩ (cs.reverse ++ before)
        rest := by
  induction cs generalizing before with
  | nil => rfl
  | cons x cs ih =>
    obtain ⟨hbackslash, hopen, hclose⟩ := hcs x List.mem_cons_self
    have hstep :
        ∀ ahead, step line ⟨.linkDestination depth :: below, partialCloser, labelClosed⟩ before
        x ahead = (⟨.linkDestination depth :: below, partialCloser, labelClosed⟩, 0) := by
      intro ahead
      simp [step, hbackslash, hopen, hclose]
    rw [List.cons_append, scan_cons, hstep, List.drop_zero,
      ih (fun y hy => hcs y (List.mem_cons_of_mem x hy)), List.reverse_cons, List.append_assoc]
    rfl

/-- The closer of a label closes it, and the address that it gives a link. -/
theorem scan_closersOf_linkLabel (before : List Char) (partialCloser : List Char)
    (labelClosed : Bool) (below : List OpenConstruct) (image footnote : Bool) :
    ∃ before', (before'.head? = some ']' ∨ before'.head? = some ')') ∧
      scan line ⟨.linkLabel image footnote :: below, partialCloser, labelClosed⟩ before
          (closersOf (.linkLabel image footnote :: below)) =
        scan line ⟨below, partialCloser, labelClosed⟩ before' (closersOf below) := by
  cases footnote with
  | true =>
    refine ⟨']' :: before, Or.inl rfl, ?_⟩
    rw [closersOf_cons, OpenConstruct.closer, List.singleton_append, scan_cons]
    rfl
  | false =>
    have hclosers : closersOf (.linkLabel image false :: below) =
        ']' :: '(' :: (incompleteLinkAddress ++ ')' :: closersOf below) := by
      simp [OpenConstruct.closer]
    have haddress : ∀ x ∈ incompleteLinkAddress, x ≠ '\\' ∧ x ≠ '(' ∧ x ≠ ')' := by
      intro x hx
      rcases of_mem_incompleteLinkAddress hx with hx | rfl | rfl
      · exact ⟨ne_of_isAlphanum hx (by decide), ne_of_isAlphanum hx (by decide),
          ne_of_isAlphanum hx (by decide)⟩
      · decide
      · decide
    refine ⟨')' :: (incompleteLinkAddress.reverse ++ '(' :: ']' :: before), Or.inr rfl, ?_⟩
    rw [hclosers, scan_cons]
    have hstep : step line ⟨.linkLabel image false :: below, partialCloser, labelClosed⟩ before ']'
        ('(' :: (incompleteLinkAddress ++ ')' :: closersOf below)) =
        (⟨.linkDestination 1 :: below, partialCloser, labelClosed⟩, 1) := rfl
    rw [hstep]
    refine (scan_linkDestination_append _ _ _ haddress).trans ?_
    rw [scan_cons]
    rfl

/-- The closers of markers and labels close them all. -/
theorem scan_closersOf_of_not_literal (hstack : ∀ x ∈ stack, x.isLiteral = false)
    (hcount : ClosersCount stack) (hbefore : CharClass.ofChar? before.head? ≠ .whiteSpace) :
    scan line ⟨stack, partialCloser, labelClosed⟩ before (closersOf stack) =
      ⟨[], partialCloser, labelClosed⟩ := by
  induction hlength : stack.length using Nat.strongRecOn generalizing stack before with
  | ind n ih =>
    cases stack with
    | nil => exact scan_nil _ _ _
    | cons x below =>
      have hbelow : ∀ y ∈ below, y.isLiteral = false :=
        fun y hy => hstack y (List.mem_cons_of_mem x hy)
      have hx := hstack x List.mem_cons_self
      rw [List.length_cons] at hlength
      cases x with
      | delimiter marker =>
        obtain ⟨before', hhead, hscan⟩ := scan_closersOf_delimiter line partialCloser labelClosed
          hbelow hcount hbefore
        have hsuffix := belowRun_suffix marker.char below
        have hle := hsuffix.length_le
        rw [hscan]
        refine ih _ (by omega) (fun y hy => hbelow y (hsuffix.subset hy))
          (hcount.of_suffix (hsuffix.trans (List.suffix_cons _ _))) ?_ rfl
        rw [hhead]
        cases marker <;> decide
      | linkLabel image footnote =>
        obtain ⟨before', hhead, hscan⟩ :=
          scan_closersOf_linkLabel line before partialCloser labelClosed below image footnote
        rw [hscan]
        refine ih _ (by omega) hbelow (hcount.of_suffix (List.suffix_cons _ _)) ?_ rfl
        rcases hhead with hhead | hhead <;>
        · rw [hhead]
          decide
      | codeSpan run => exact absurd hx Bool.true_eq_false.mp
      | math display ownLine => exact absurd hx Bool.true_eq_false.mp
      | linkDestination depth => exact absurd hx Bool.true_eq_false.mp

/-! ### Closers of code, formulas and addresses -/

/-- Inside an address every closing parenthesis closes one of its parentheses. -/
theorem scan_closersOf_linkDestination (before : List Char) (partialCloser : List Char)
    (labelClosed : Bool) (below : List OpenConstruct) {depth : Nat} (hdepth : 0 < depth) :
    ∃ before', before'.head? = some ')' ∧
      scan line ⟨.linkDestination depth :: below, partialCloser, labelClosed⟩ before
          (List.replicate depth ')' ++ closersOf below) =
        scan line ⟨below, partialCloser, labelClosed⟩ before' (closersOf below) := by
  induction depth generalizing before with
  | zero => exact absurd hdepth (Nat.lt_irrefl 0)
  | succ depth ih =>
    rw [List.replicate_succ, List.cons_append, scan_cons]
    by_cases hzero : depth = 0
    · subst hzero
      exact ⟨')' :: before, rfl, rfl⟩
    · have hstep : ∀ ahead,
          step line ⟨.linkDestination (depth + 1) :: below, partialCloser, labelClosed⟩ before
            ')' ahead = (⟨.linkDestination depth :: below, partialCloser, labelClosed⟩, 0) := by
        intro ahead
        simp [step, hzero]
      rw [hstep]
      exact ih _ (Nat.pos_of_ne_zero hzero)

/-- A step that takes in the rest of a run takes in the whole run. -/
theorem scan_replicate_append {st st' : InlineState} (before : List Char) {c : Char} {k : Nat}
    {after : List Char} (hstep : st.step line before c (List.replicate k c ++ after) = (st', k)) :
    scan line st before (List.replicate (k + 1) c ++ after) =
      scan line st' (List.replicate (k + 1) c ++ before) after := by
  have hbefore : List.replicate (k + 1) c ++ before = List.replicate k c ++ c :: before := by
    rw [List.replicate_succ', List.append_assoc, List.singleton_append]
  rw [hbefore, List.replicate_succ, List.cons_append, scan_cons, hstep,
    List.drop_left' List.length_replicate, List.take_left' List.length_replicate,
    List.reverse_replicate]

/-- A run of as many backticks closes a code span, whatever follows. -/
theorem scan_closingTicks (before : List Char) (partialCloser : List Char) (labelClosed : Bool)
    (below : List OpenConstruct) {run : Nat} (hrun : 0 < run) {after : List Char}
    (hafter : after.head? ≠ some '`') :
    scan line ⟨.codeSpan run :: below, partialCloser, labelClosed⟩ before
        (List.replicate run '`' ++ after) =
      scan line ⟨below, partialCloser, labelClosed⟩ (List.replicate run '`' ++ before) after := by
  obtain ⟨k, rfl⟩ : ∃ k, run = k + 1 := ⟨run - 1, by omega⟩
  have hmore : runLength '`' (List.replicate k '`' ++ after) = k :=
    runLength_replicate_append hafter
  refine scan_replicate_append line before ?_
  simp only [step, if_true, hmore]

theorem scan_closersOf_codeSpan (before : List Char) (partialCloser : List Char)
    (labelClosed : Bool) (hbelow : ∀ x ∈ below, x.isLiteral = false) {run : Nat}
    (hrun : 0 < run) :
    ∃ before', before'.head? = some '`' ∧
      scan line ⟨.codeSpan run :: below, partialCloser, labelClosed⟩ before
          (List.replicate run '`' ++ closersOf below) =
        scan line ⟨below, partialCloser, labelClosed⟩ before' (closersOf below) := by
  refine ⟨List.replicate run '`' ++ before, ?_,
    scan_closingTicks line before partialCloser labelClosed below
    hrun (head?_closersOf_ne hbelow (by decide) fun marker => by cases marker <;> decide)⟩
  rw [List.head?_append, List.head?_replicate, if_neg (Nat.ne_of_gt hrun), Option.some_or]

/-- A closer of dollar signs is not followed by another one. -/
theorem runLength_dollar_closersOf (hbelow : ∀ x ∈ below, x.isLiteral = false) (k : Nat) :
    runLength '$' (List.replicate k '$' ++ closersOf below) = k :=
  runLength_replicate_append
    (head?_closersOf_ne hbelow (by decide) fun marker => by cases marker <;> decide)

theorem scan_closersOf_inlineMath (hbelow : ∀ x ∈ below, x.isLiteral = false) {ownLine : Bool}
    (hbefore : CharClass.ofChar? before.head? ≠ .whiteSpace) :
    scan line ⟨.math false ownLine :: below, partialCloser, labelClosed⟩ before
      ('$' :: closersOf below) =
      scan line ⟨below, partialCloser, labelClosed⟩ ('$' :: before) (closersOf below) := by
  have hstep : step line ⟨.math false ownLine :: below, partialCloser, labelClosed⟩ before '$'
      (closersOf below) = (⟨below, partialCloser, labelClosed⟩, 0) := by
    have hrun : runLength '$' (closersOf below) = 0 := runLength_dollar_closersOf hbelow 0
    simp [step, hrun, Delimiter.canClose, hbefore]
  rw [scan_cons, hstep]
  rfl

theorem scan_closersOf_displayMath (hbelow : ∀ x ∈ below, x.isLiteral = false) {ownLine : Bool} :
    scan line ⟨.math true ownLine :: below, partialCloser, labelClosed⟩ before
        ('$' :: '$' :: closersOf below) =
      scan line ⟨below, partialCloser, labelClosed⟩ ('$' :: '$' :: before) (closersOf below) := by
  have hrun : runLength '$' ('$' :: closersOf below) = 1 := runLength_dollar_closersOf hbelow 1
  have hstep : step line ⟨.math true ownLine :: below, partialCloser, labelClosed⟩ before '$'
      ('$' :: closersOf below) = (⟨below, partialCloser, labelClosed⟩, 1) := by
    simp [step, hrun]
  rw [scan_cons, hstep]
  rfl

/-- The closers of a stack close all of it, if they follow on the same line. -/
theorem scan_closersOf (hnested : Nested stack) (hcount : ClosersCount stack)
    (hown : .math true true ∉ stack) (hbefore : CharClass.ofChar? before.head? ≠ .whiteSpace) :
    scan line ⟨stack, partialCloser, labelClosed⟩ before (closersOf stack) =
      ⟨[], partialCloser, labelClosed⟩ := by
  cases stack with
  | nil => exact scan_nil _ _ _
  | cons x below =>
    have hbelow : ∀ y ∈ below, y.isLiteral = false := hnested.isLiteral_tail
    have hbelowCount : ClosersCount below := hcount.of_suffix (List.suffix_cons _ _)
    have hclose : ∀ {y : Char} {before' : List Char}, before'.head? = some y →
        CharClass.ofChar? (some y) ≠ .whiteSpace →
        scan line ⟨below, partialCloser, labelClosed⟩ before' (closersOf below) =
          ⟨[], partialCloser, labelClosed⟩ :=
      fun hhead hy => scan_closersOf_of_not_literal line _ _ hbelow hbelowCount (hhead ▸ hy)
    have hsound := hnested.isSound x List.mem_cons_self
    cases x with
    | delimiter marker =>
      exact scan_closersOf_of_not_literal line _ _ (List.forall_mem_cons.mpr ⟨rfl, hbelow⟩)
        hcount hbefore
    | linkLabel image footnote =>
      exact scan_closersOf_of_not_literal line _ _ (List.forall_mem_cons.mpr ⟨rfl, hbelow⟩)
        hcount hbefore
    | codeSpan run =>
      obtain ⟨before', hhead, hscan⟩ :=
        scan_closersOf_codeSpan line before partialCloser labelClosed hbelow hsound
      exact hscan.trans (hclose hhead (by decide))
    | linkDestination depth =>
      obtain ⟨before', hhead, hscan⟩ := scan_closersOf_linkDestination line before partialCloser
        labelClosed below hsound
      exact hscan.trans (hclose hhead (by decide))
    | math display ownLine =>
      cases display with
      | false =>
        exact (scan_closersOf_inlineMath line _ _ hbelow hbefore).trans (hclose rfl (by decide))
      | true =>
        cases ownLine with
        | false => exact (scan_closersOf_displayMath line _ _ hbelow).trans (hclose rfl (by decide))
        | true => exact absurd List.mem_cons_self hown

end InlineState

end LiveMarkdown
