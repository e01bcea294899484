import LiveMarkdown.Completion.Scan

/-!
# The stack of open constructs

Every step of the inline scan keeps a lower part of the stack and opens constructs on top of it.
From this follows what holds of the stack after any scan: a construct in which only its own closer
counts is never below another one, code spans have a run and addresses a depth, and a construct that
is open has been opened at a character that can open it.

## Main definitions

* `OpenConstruct.IsSound`: what a construct that a scan opens is like.
* `Nested`: the invariant of stacks.
* `OpensAt`: the constructs that a character opens.
* `StackStep`, `InlineState.RestStep`: what a step may do to the stack and to the rest of the state.
* `InlineState.IsReached`: what holds of the state of every scan.

## Main results

* `InlineState.stackStep_step`: what a step can do to the stack.
* `InlineState.step_cases`, `InlineState.restStep_step`: what a step can do to the rest of the
  state.
* `InlineState.IsReached.scan`: the invariant along a line.
-/

namespace LiveMarkdown

/-- The construct has a closer with characters, and if it is a formula on a line of its own, it is a
display formula. -/
def OpenConstruct.IsSound : OpenConstruct → Prop
  | .codeSpan run => 0 < run
  | .math display ownLine => ownLine = true → display = true
  | .linkDestination depth => 0 < depth
  | _ => True

/-- Only the innermost construct may be one in which nothing but its closer counts. -/
structure Nested (stack : List OpenConstruct) : Prop where
  isLiteral_tail : ∀ x ∈ stack.tail, x.isLiteral = false
  isSound : ∀ x ∈ stack, x.IsSound

theorem nested_nil : Nested [] := ⟨by simp, by simp⟩

/-- If the innermost construct is not literal, none is. -/
theorem Nested.isLiteral_eq_false {stack : List OpenConstruct} (h : Nested stack)
    (hhead : ∀ x ∈ stack.head?, x.isLiteral = false) : ∀ x ∈ stack, x.isLiteral = false := by
  cases stack with
  | nil => simp
  | cons y ys => exact List.forall_mem_cons.mpr ⟨hhead y rfl, h.isLiteral_tail⟩

/-- The constructs that a character opens, given the characters behind it. -/
inductive OpensAt (c : Char) (ahead : List Char) : OpenConstruct → Prop
  | delimiter (marker : Marker) (h : marker.char = c) : OpensAt c ahead (.delimiter marker)
  | codeSpan (run : Nat) (h : 0 < run) : OpensAt c ahead (.codeSpan run)
  | math (display ownLine : Bool) (hc : c = '$')
      (h : ownLine = true → display = true ∧ ahead.drop (runLength c ahead) = []) :
      OpensAt c ahead (.math display ownLine)
  | linkLabel (image footnote : Bool) : OpensAt c ahead (.linkLabel image footnote)
  | linkDestination (depth : Nat) (h : 0 < depth) : OpensAt c ahead (.linkDestination depth)

theorem OpensAt.isSound {c : Char} {ahead : List Char} {x : OpenConstruct} (h : OpensAt c ahead x) :
    x.IsSound := by
  cases h with
  | codeSpan run h => exact h
  | math display ownLine _ h => exact fun hown => (h hown).1
  | linkDestination depth h => exact h
  | _ => trivial

/-! ### What closing leaves -/

theorem closeLabel?_suffix {stack below : List OpenConstruct} {footnote : Bool}
    (h : closeLabel? stack = some (footnote, below)) : below <:+ stack := by
  fun_induction closeLabel? stack with
  | case1 => simp at h
  | case2 image footnote' below' =>
    obtain ⟨-, rfl⟩ := Prod.mk.inj (Option.some.inj h)
    exact List.suffix_cons _ _
  | case3 x below' _ ih => exact (ih h).trans (List.suffix_cons _ _)

theorem findOpener?_suffix {c : Char} {stack below : List OpenConstruct} {marker : Marker}
    (h : findOpener? c stack = some (marker, below)) : below <:+ stack := by
  fun_induction findOpener? c stack with
  | case1 => simp at h
  | case2 => simp at h
  | case3 marker' below' hc =>
    obtain ⟨-, rfl⟩ := Prod.mk.inj (Option.some.inj h)
    exact List.suffix_cons _ _
  | case4 marker' below' hc ih => exact (ih h).trans (List.suffix_cons _ _)
  | case5 x below' _ _ ih => exact (ih h).trans (List.suffix_cons _ _)

theorem closeRun_suffix (c : Char) (atEnd : Bool) (stack : List OpenConstruct) (remaining : Nat) :
    (closeRun c atEnd stack remaining).stack <:+ stack := by
  fun_induction closeRun c atEnd stack remaining with
  | case1 => exact List.suffix_refl _
  | case2 => exact List.suffix_refl _
  | case3 stack remaining _ marker below hopener _ ih => exact ih.trans (findOpener?_suffix hopener)
  | case4 stack remaining _ marker below hopener _ _ => exact findOpener?_suffix hopener
  | case5 => exact List.suffix_refl _

/-- Before the end of the text no closing run is taken to be cut short. -/
theorem closeRun_missing_of_not_atEnd (c : Char) (stack : List OpenConstruct) (remaining : Nat) :
    (closeRun c false stack remaining).missing = 0 := by
  fun_induction closeRun c false stack remaining with
  | case3 stack remaining _ marker below hopener _ ih => exact ih
  | case4 _ _ _ _ _ _ _ hatEnd => exact absurd hatEnd Bool.false_ne_true
  | _ => rfl

theorem markersOf?_char {c : Char} {single double : Marker}
    (h : markersOf? c = some (single, double)) :
    single.char = c ∧ double.char = c := by
  unfold markersOf? at h
  split at h <;> first
    | (obtain ⟨rfl, rfl⟩ := Prod.mk.inj (Option.some.inj h); exact ⟨rfl, rfl⟩)
    | simp at h

/-- A delimiter run opens markers of its character and nothing else. -/
theorem exists_marker_of_mem_openedBy {c : Char} {single double : Marker} {n : Nat}
    {x : OpenConstruct} (hmarkers : markersOf? c = some (single, double))
    (h : x ∈ openedBy c single double n) :
    ∃ marker : Marker, marker.char = c ∧ x = .delimiter marker := by
  obtain ⟨hsingle, hdouble⟩ := markersOf?_char hmarkers
  rw [openedBy] at h
  split at h
  · rcases List.mem_append.mp h with h | h
    · exact ⟨double, hdouble, (List.mem_replicate.mp h).2⟩
    · split at h
      · exact ⟨single, hsingle, List.mem_singleton.mp h⟩
      · simp at h
  · obtain rfl := List.mem_singleton.mp h
    split
    · exact ⟨single, hsingle, rfl⟩
    · exact ⟨double, hdouble, rfl⟩

theorem tail_subset_of_suffix {stack kept : List OpenConstruct} (h : kept <:+ stack) :
    kept.tail ⊆ stack.tail := by
  obtain ⟨dropped, rfl⟩ := h
  cases dropped with
  | nil => exact List.Subset.refl _
  | cons x xs => exact fun y hy => List.mem_append_right xs (List.mem_of_mem_tail hy)

/-! ### What a step does -/

/-- What a delimiter run closes, given the classes of its neighbours. -/
def runClosing (marker : Marker) (atEnd : Bool) (stack : List OpenConstruct)
    (previous next : CharClass) (run : Nat) : RunClosing :=
  if marker.delimiter.canClose previous next then closeRun marker.char atEnd stack run
  else ⟨stack, run, 0⟩

/-- What a delimiter run opens with the characters that have closed nothing. -/
def runOpening (single double : Marker) (previous next : CharClass) (remaining : Nat) :
    List OpenConstruct :=
  if 0 < remaining && single.delimiter.canOpen previous next then
    openedBy single.char single double remaining
  else []

theorem runClosing_suffix (marker : Marker) (atEnd : Bool) (stack : List OpenConstruct)
    (previous next : CharClass) (run : Nat) :
    (runClosing marker atEnd stack previous next run).stack <:+ stack := by
  rw [runClosing]
  split
  · exact closeRun_suffix _ _ _ _
  · exact List.suffix_refl _

theorem runClosing_missing_of_not_atEnd (marker : Marker) (stack : List OpenConstruct)
    (previous next : CharClass) (run : Nat) :
    (runClosing marker false stack previous next run).missing = 0 := by
  rw [runClosing]
  split
  · exact closeRun_missing_of_not_atEnd _ _ _
  · rfl

/-- A step over a delimiter run, taken apart. -/
theorem InlineState.stepDelimiters_eq (line : InlineLine) (st : InlineState) (before : List Char)
    {c : Char} {single double : Marker} (hmarkers : markersOf? c = some (single, double))
    (ahead : List Char) :
    st.stepDelimiters line before c single double ahead =
      (if countsAsRun c (runLength c ahead + 1) then
        let previous := CharClass.ofChar? before.head?
        let next := CharClass.ofChar? (ahead.drop (runLength c ahead)).head?
        let closing := runClosing single (line.final && (ahead.drop (runLength c ahead)).isEmpty)
          st.stack previous next (runLength c ahead + 1)
        { st with
          stack := runOpening single double previous next closing.remaining ++ closing.stack
          partialCloser :=
            if closing.missing = 0 then st.partialCloser else List.replicate closing.missing c }
      else st, runLength c ahead) := by
  obtain ⟨rfl, -⟩ := markersOf?_char hmarkers
  rw [stepDelimiters]
  simp only [runClosing, runOpening]
  by_cases hcounts : countsAsRun single.char (runLength single.char ahead + 1) = true
  · simp [hcounts]
  · simp [hcounts]

/-- One stack comes from another by keeping a lower part and opening constructs on top. Only the
innermost of these may be literal, and none is opened on top of a literal one. -/
def StackStep (c : Char) (ahead : List Char) (stack stack' : List OpenConstruct) : Prop :=
  ∃ opened kept, stack' = opened ++ kept ∧ kept <:+ stack ∧ (∀ x ∈ opened, OpensAt c ahead x) ∧
    (∀ x ∈ opened.tail, x.isLiteral = false) ∧
    (opened ≠ [] → kept <:+ stack.tail ∨ ∀ x ∈ stack.head?, x.isLiteral = false)

namespace StackStep

variable {c : Char} {ahead : List Char} {stack stack' kept : List OpenConstruct}
  {x y : OpenConstruct}

theorem keep (h : kept <:+ stack) : StackStep c ahead stack kept :=
  ⟨[], kept, rfl, h, by simp, by simp, by simp⟩

theorem refl : StackStep c ahead stack stack := keep (List.suffix_refl stack)

theorem opens (hx : OpensAt c ahead x) (h : kept <:+ stack)
    (hstack : ∀ y ∈ stack.head?, y.isLiteral = false) : StackStep c ahead stack (x :: kept) :=
  ⟨[x], kept, rfl, h, by simpa using hx, by simp, fun _ => Or.inr hstack⟩

theorem replaces (hx : OpensAt c ahead x) : StackStep c ahead (y :: stack) (x :: stack) :=
  ⟨[x], stack, rfl, List.suffix_cons y stack, by simpa using hx, by simp,
    fun _ => Or.inl (List.suffix_refl stack)⟩

theorem opensMarkers {opened : List OpenConstruct}
    (hopened : ∀ x ∈ opened, ∃ marker : Marker, marker.char = c ∧ x = .delimiter marker)
    (h : kept <:+ stack) (hstack : ∀ y ∈ stack.head?, y.isLiteral = false) :
    StackStep c ahead stack (opened ++ kept) := by
  refine ⟨opened, kept, rfl, h, ?_, ?_, fun _ => Or.inr hstack⟩
  · intro x hx
    obtain ⟨marker, hc, rfl⟩ := hopened x hx
    exact .delimiter marker hc
  · intro x hx
    obtain ⟨marker, -, rfl⟩ := hopened x (List.mem_of_mem_tail hx)
    rfl

/-- What is open after a step was open before or has been opened by it. -/
theorem mem_or_opensAt (h : StackStep c ahead stack stack') {x : OpenConstruct} (hx : x ∈ stack') :
    x ∈ stack ∨ OpensAt c ahead x := by
  obtain ⟨opened, kept, rfl, hkept, hopened, -, -⟩ := h
  rcases List.mem_append.mp hx with hx | hx
  · exact Or.inr (hopened x hx)
  · exact Or.inl (hkept.subset hx)

theorem nested (h : StackStep c ahead stack stack') (hstack : Nested stack) : Nested stack' := by
  refine ⟨?_, fun x hx => ?_⟩
  · obtain ⟨opened, kept, rfl, hkept, hopened, htail, hbelow⟩ := h
    have hallBelow : opened ≠ [] → ∀ x ∈ kept, x.isLiteral = false := by
      intro hne x hx
      rcases hbelow hne with hbelow | hhead
      · exact hstack.isLiteral_tail x (hbelow.subset hx)
      · exact hstack.isLiteral_eq_false hhead x (hkept.subset hx)
    cases opened with
    | nil =>
      intro x hx
      exact hstack.isLiteral_tail x (tail_subset_of_suffix hkept hx)
    | cons y ys =>
      intro x hx
      rcases List.mem_append.mp hx with hx | hx
      · exact htail x hx
      · exact hallBelow (by simp) x hx
  · rcases h.mem_or_opensAt hx with hx | hx
    · exact hstack.isSound x hx
    · exact hx.isSound

end StackStep

namespace InlineState

variable (line : InlineLine) (st : InlineState) (before : List Char) (c : Char) (ahead : List Char)

theorem stackStep_stepMarkup (hst : ∀ x ∈ st.stack.head?, x.isLiteral = false) :
    StackStep c ahead st.stack (st.stepMarkup line before c ahead).1.stack := by
  unfold stepMarkup
  split
  · exact .refl
  · unfold stepBackticks
    simp only
    split
    · exact .refl
    · exact .opens (.codeSpan _ (Nat.succ_pos _)) (List.suffix_refl _) hst
  · unfold stepDollars
    simp only
    split
    · split
      · exact .opens (.math _ _ rfl (by simp)) (List.suffix_refl _) hst
      · exact .refl
    · split
      · split
        · refine .opens (.math _ _ rfl fun hown => ?_) (List.suffix_refl _) hst
          simp only [Bool.and_eq_true, List.isEmpty_iff] at hown
          exact ⟨rfl, hown.2⟩
        · exact .refl
      · exact .refl
  · unfold stepOpenBracket
    simp only
    split
    · exact .refl
    · exact .opens (.linkLabel _ _) (List.suffix_refl _) hst
  · unfold stepCloseBracket
    split
    · exact .refl
    · rename_i below hlabel
      exact .keep (closeLabel?_suffix hlabel)
    · rename_i below hlabel
      split
      · exact .opens (.linkDestination _ Nat.one_pos) (closeLabel?_suffix hlabel) hst
      · exact .keep (closeLabel?_suffix hlabel)
      · exact .keep (closeLabel?_suffix hlabel)
  · unfold stepColon
    simp only
    split <;> exact .refl
  · split
    · rename_i single double hmarkers
      rw [stepDelimiters_eq line st before hmarkers]
      split
      · refine .opensMarkers (fun x hx => ?_) (runClosing_suffix _ _ _ _ _ _) hst
        obtain ⟨rfl, -⟩ := markersOf?_char hmarkers
        rw [runOpening] at hx
        split at hx
        · exact exists_marker_of_mem_openedBy hmarkers hx
        · simp at hx
      · exact .refl
    · exact .refl

variable {st} in
/-- The constructs that a step looks for on top of the stack are the literal ones. -/
theorem isLiteral_head?_eq_false (hcode : ∀ run below, st.stack = .codeSpan run :: below → False)
    (hmath : ∀ display ownLine below, st.stack = .math display ownLine :: below → False)
    (hdestination : ∀ depth below, st.stack = .linkDestination depth :: below → False) :
    ∀ x ∈ st.stack.head?, x.isLiteral = false := by
  intro x hx
  obtain ⟨below, hst⟩ := List.head?_eq_some_iff.mp hx
  cases x with
  | codeSpan run => exact (hcode run below hst).elim
  | math display ownLine => exact (hmath display ownLine below hst).elim
  | linkDestination depth => exact (hdestination depth below hst).elim
  | _ => rfl

variable {st} in
theorem step_eq_stepMarkup (hst : ∀ x ∈ st.stack.head?, x.isLiteral = false) (before : List Char)
    (c : Char) (ahead : List Char) :
    st.step line before c ahead = st.stepMarkup line before c ahead := by
  unfold step
  split
  · rename_i hstack
    exact absurd (hst _ (by rw [hstack]; rfl)) (by simp [OpenConstruct.isLiteral])
  · rename_i hstack
    exact absurd (hst _ (by rw [hstack]; rfl)) (by simp [OpenConstruct.isLiteral])
  · rename_i hstack
    exact absurd (hst _ (by rw [hstack]; rfl)) (by simp [OpenConstruct.isLiteral])
  · rfl

/-- A step keeps a lower part of the stack and opens constructs on top of it. -/
theorem stackStep_step : StackStep c ahead st.stack (st.step line before c ahead).1.stack := by
  unfold step
  split
  · rename_i run below hstack
    simp only
    split
    · split
      · rw [hstack]
        exact .keep (List.suffix_cons _ _)
      · exact .refl
    · exact .refl
  · rename_i display ownLine below hstack
    split
    · exact .refl
    · split
      · simp only
        generalize (if display then _ else _ : Bool) = closes
        cases closes with
        | true =>
          rw [hstack]
          exact .keep (List.suffix_cons _ _)
        | false => exact .refl
      · exact .refl
  · rename_i depth below hstack
    rw [hstack]
    split
    · rw [hstack]
      exact .refl
    · split
      · exact .replaces (.linkDestination _ (Nat.succ_pos _))
      · split
        · split
          · exact .keep (List.suffix_cons _ _)
          · exact .replaces (.linkDestination _ (by omega))
        · rw [hstack]
          exact .refl
  · rename_i hcode hmath hdestination
    exact stackStep_stepMarkup line st before c ahead
      (isLiteral_head?_eq_false hcode hmath hdestination)

/-- Only the end of a label and a delimiter run can change more than the stack, where no literal
construct is open. -/
theorem stepMarkup_cases :
    ((st.stepMarkup line before c ahead).1.partialCloser = st.partialCloser ∧
        (st.stepMarkup line before c ahead).1.labelClosedAtEnd = st.labelClosedAtEnd) ∨
      (c = ']' ∧ st.stepMarkup line before c ahead = st.stepCloseBracket line ahead) ∨
      ∃ single double, markersOf? c = some (single, double) ∧
        st.stepMarkup line before c ahead =
        st.stepDelimiters line before c single double ahead := by
  unfold stepMarkup
  split
  · exact Or.inl ⟨rfl, rfl⟩
  · left
    unfold stepBackticks
    simp only
    split <;> exact ⟨rfl, rfl⟩
  · left
    unfold stepDollars
    simp only
    repeat' split
    all_goals exact ⟨rfl, rfl⟩
  · left
    unfold stepOpenBracket
    simp only
    split <;> exact ⟨rfl, rfl⟩
  · exact Or.inr (Or.inl ⟨rfl, rfl⟩)
  · left
    unfold stepColon
    simp only
    split <;> exact ⟨rfl, rfl⟩
  · split
    · rename_i single double hmarkers
      exact Or.inr (Or.inr ⟨single, double, hmarkers, rfl⟩)
    · exact Or.inl ⟨rfl, rfl⟩

/-- A step changes nothing but the stack, or it is a step where no literal construct is open, over
the end of a label or a delimiter run. -/
theorem step_cases :
    ((st.step line before c ahead).1.partialCloser = st.partialCloser ∧
        (st.step line before c ahead).1.labelClosedAtEnd = st.labelClosedAtEnd) ∨
      (∀ x ∈ st.stack.head?, x.isLiteral = false) ∧
        (c = ']' ∧ st.step line before c ahead = st.stepCloseBracket line ahead ∨
          ∃ single double, markersOf? c = some (single, double) ∧
            st.step line before c ahead = st.stepDelimiters line before c single double ahead) := by
  by_cases hst : ∀ x ∈ st.stack.head?, x.isLiteral = false
  · rw [step_eq_stepMarkup line hst]
    exact (stepMarkup_cases line st before c ahead).imp_right fun h => ⟨hst, h⟩
  · left
    unfold step
    split
    · simp only
      split <;> first | (split <;> exact ⟨rfl, rfl⟩) | exact ⟨rfl, rfl⟩
    · split
      · exact ⟨rfl, rfl⟩
      · split
        · rename_i display _ _ _ _ _
          simp only
          generalize (if display then _ else _ : Bool) = closes
          cases closes <;> exact ⟨rfl, rfl⟩
        · exact ⟨rfl, rfl⟩
    · repeat' split
      all_goals exact ⟨rfl, rfl⟩
    · rename_i hcode hmath hdestination
      exact absurd (isLiteral_head?_eq_false hcode hmath hdestination) hst

/-- The rest of the state stays as it is, unless a run of characters ends where the text ends and is
a delimiter run or the end of a label. -/
def RestStep (st st' : InlineState) : Prop :=
  (st'.partialCloser = st.partialCloser ∧ st'.labelClosedAtEnd = st.labelClosedAtEnd) ∨
    (line.final = true ∧ ahead.drop (runLength c ahead) = [] ∧
      (c = ']' ∧ st'.partialCloser = st.partialCloser ∨
        (markersOf? c).isSome ∧ ∃ n, st'.partialCloser = List.replicate n c))

theorem restStep_stepCloseBracket :
    RestStep line ']' ahead st (st.stepCloseBracket line ahead).1 := by
  unfold stepCloseBracket
  split
  · exact Or.inl ⟨rfl, rfl⟩
  · exact Or.inl ⟨rfl, rfl⟩
  · split
    · exact Or.inl ⟨rfl, rfl⟩
    · cases hfinal : line.final with
      | false => exact Or.inl ⟨rfl, rfl⟩
      | true => exact Or.inr ⟨hfinal, rfl, Or.inl ⟨rfl, rfl⟩⟩
    · exact Or.inl ⟨rfl, rfl⟩

theorem restStep_stepDelimiters {single double : Marker}
    (hmarkers : markersOf? c = some (single, double)) :
    RestStep line c ahead st (st.stepDelimiters line before c single double ahead).1 := by
  rw [stepDelimiters_eq line st before hmarkers]
  split
  · by_cases hatEnd : (line.final && (ahead.drop (runLength c ahead)).isEmpty) = true
    · obtain ⟨hfinal, hend⟩ := Bool.and_eq_true_iff.mp hatEnd
      simp only
      split
      · exact Or.inl ⟨rfl, rfl⟩
      · exact Or.inr ⟨hfinal, List.isEmpty_iff.mp hend, Or.inr ⟨by simp [hmarkers], _, rfl⟩⟩
    · rw [Bool.not_eq_true] at hatEnd
      left
      simp only [hatEnd]
      exact ⟨if_pos (runClosing_missing_of_not_atEnd _ _ _ _ _), trivial⟩
  · exact Or.inl ⟨rfl, rfl⟩

/-- A step changes nothing but the stack, unless it ends where the text ends. -/
theorem restStep_step : RestStep line c ahead st (st.step line before c ahead).1 := by
  rcases step_cases line st before c ahead with
    hsame | ⟨-, ⟨rfl, hstep⟩ | ⟨single, double, hmarkers, hstep⟩⟩
  · exact Or.inl hsame
  · rw [hstep]
    exact restStep_stepCloseBracket line st ahead
  · rw [hstep]
    exact restStep_stepDelimiters line st before c ahead hmarkers

theorem scan_nil : scan line st before [] = st := by
  rw [scan]

theorem scan_cons :
    scan line st before (c :: ahead) =
      scan line (st.step line before c ahead).1
        ((ahead.take (st.step line before c ahead).2).reverse ++ c :: before)
        (ahead.drop (st.step line before c ahead).2) := by
  rw [scan]

/-- What holds of the state of every scan of a text. -/
structure IsReached (text : List Char) (st : InlineState) : Prop where
  nested : Nested st.stack
  char_mem : ∀ marker, .delimiter marker ∈ st.stack → marker.char ∈ text
  isMarker : ∀ x ∈ st.partialCloser, (markersOf? x).isSome

theorem isReached_empty (text : List Char) : IsReached text .empty :=
  ⟨nested_nil, by simp [InlineState.empty], by simp [InlineState.empty]⟩

variable {line st before c ahead} {text : List Char}

theorem IsReached.step (h : IsReached text st) (hc : c ∈ text) :
    IsReached text (st.step line before c ahead).1 := by
  have hstep := stackStep_step line st before c ahead
  refine ⟨hstep.nested h.nested, fun marker hmem => ?_, fun x hx => ?_⟩
  · rcases hstep.mem_or_opensAt hmem with hmem | hopens
    · exact h.char_mem marker hmem
    · cases hopens with
      | delimiter marker hchar => exact hchar ▸ hc
  · rcases restStep_step line st before c ahead with ⟨heq, -⟩ | ⟨-, -, hend⟩
    · exact h.isMarker x (heq ▸ hx)
    · rcases hend with ⟨-, heq⟩ | ⟨hmarker, n, heq⟩
      · exact h.isMarker x (heq ▸ hx)
      · rw [heq] at hx
        exact (List.eq_of_mem_replicate hx).symm ▸ hmarker

theorem IsReached.scan (h : IsReached text st) (hahead : ahead ⊆ text) :
    IsReached text (InlineState.scan line st before ahead) := by
  fun_induction InlineState.scan line st before ahead with
  | case1 => exact h
  | case2 st before c ahead next ih =>
    obtain ⟨hc, hahead⟩ := List.cons_subset.mp hahead
    exact ih (h.step hc) (List.Subset.trans (List.drop_subset _ _) hahead)

end InlineState

end LiveMarkdown
