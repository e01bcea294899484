import LiveMarkdown.Proofs.Completion.ClosingLine
import LiveMarkdown.Proofs.Completion.TableHead

/-!
# The states of a scan

What holds of the state at every point of a scan: between two lines, within a line from one step to
the next, and at the end of the text. A construct in which only its own closer counts is the
innermost one, code spans have a run and addresses a depth, the closing run that the end of the text
cuts short lacks one character of a pair, and an open fence still lacks a part of its closing run.
So whatever is counted when the closers are written is counted without falling below zero.

The line feed of a suffix is that of a display formula on a line of its own, of a closing line, or
of the separator row of a table. The formula is the innermost construct. Nothing stands in front of
its closer, since a step that the end of the text cuts short ends the scan, and leaves no formula
open.

## Main definitions

* `InlineState.Passes`, `ScanState.Visited`: the states that the scan of a line and of a text goes
  through.
* `InlineState.InOrder`, `OpenFence.InOrder`, `ScanState.InOrder`: the invariants.

## Main results

* `InlineState.endStep_step`: what a step does to that part of the state which the end of the text
  decides.
* `ScanState.Visited.inOrder`: the invariant holds of every state that is visited.
* `newline_not_mem_tail_suffix`: a line feed is the first character of a suffix.
* `scan_stays_in_order`: the invariants spelt out, and what they mean for suffixes.
-/

namespace LiveMarkdown

/-! ### The states that are visited -/

/-- The states that the scan of a line goes through, from one step to the next. -/
inductive InlineState.Passes (line : InlineLine) :
    InlineState → List Char → List Char → InlineState → Prop
  | here (st : InlineState) (before ahead : List Char) : Passes line st before ahead st
  | onward {st st' : InlineState} {before : List Char} {c : Char} {ahead : List Char}
      (h : Passes line (st.step line before c ahead).1
        ((ahead.take (st.step line before c ahead).2).reverse ++ c :: before)
        (ahead.drop (st.step line before c ahead).2) st') : Passes line st before (c :: ahead) st'

/-- A line that is scanned for inline constructs. -/
structure ScanState.ReadsInline (st : ScanState) (line : List Char) : Prop where
  fence_eq : st.fence = none
  not_break : isThematicBreak line = false
  not_blank : isBlankLine (lineContent line) = false
  not_fence : openFence? line (lineContent line) (containerLead line).quoteDepth = none

/-- The states that the scan of a text goes through. -/
inductive ScanState.Visited (text : List Char) : ScanState → Prop
  | betweenLines {done rest : List (List Char)} (h : splitLines text = done ++ rest) :
      Visited text (empty.passLines done)
  | withinLine {done rest : List (List Char)} {line : List Char} {i : InlineState}
      (h : splitLines text = done ++ line :: rest)
      (hreads : (empty.passLines done).ReadsInline (stripReturn line).1)
      (hpasses : InlineState.Passes
        (lineView (stripReturn line).1 (rest.isEmpty && (stripReturn line).2))
        ((empty.passLines done).startOf (stripReturn line).1) (markersBefore (stripReturn line).1)
        (containerLead (stripReturn line).1).rest i) : Visited text ⟨i, none⟩
  | atEnd : Visited text (empty.scanLines (splitLines text))

/-! ### The invariant along a line -/

/-- Only the innermost construct is literal, what is open has a closer, and the closing run that the
end of the text cuts short is the first character of a pair. -/
structure InlineState.InOrder (st : InlineState) : Prop where
  nested : Nested st.stack
  partialCloser_eq : st.partialCloser = [] ∨
    ∃ marker : Marker, marker.length = 2 ∧ st.partialCloser = [marker.char]

theorem char_of_findOpener? {c : Char} {stack below : List OpenConstruct} {marker : Marker}
    (h : findOpener? c stack = some (marker, below)) : marker.char = c := by
  fun_induction findOpener? c stack with
  | case1 => cases h
  | case2 => cases h
  | case3 marker' below' hc =>
    obtain ⟨rfl, -⟩ := Prod.mk.inj (Option.some.inj h)
    exact hc
  | case4 marker' below' hc ih => exact ih h
  | case5 x below' _ _ ih => exact ih h

/-- A closing run that is cut short lacks one character of a pair, and is used up. -/
theorem closeRun_missing_cases (c : Char) (atEnd : Bool) (stack : List OpenConstruct)
    (remaining : Nat) :
    (closeRun c atEnd stack remaining).missing = 0 ∨
      atEnd = true ∧ (closeRun c atEnd stack remaining).remaining = 0 ∧
        ∃ marker : Marker, marker.char = c ∧ marker.length = 2 ∧
          (closeRun c atEnd stack remaining).missing = 1 := by
  fun_induction closeRun c atEnd stack remaining with
  | case3 stack remaining _ marker below hopener _ ih => exact ih
  | case4 stack remaining hpos marker below hopener hlong hatEnd =>
    have hpair : marker.length = 2 ∧ remaining = 1 := by
      have : marker.length ≤ 2 := by cases marker <;> decide
      omega
    refine .inr ⟨hatEnd, rfl, marker, char_of_findOpener? hopener, hpair.1, ?_⟩
    rw [hpair.1, hpair.2]
  | _ => exact .inl rfl

namespace InlineState

variable (line : InlineLine) (st : InlineState) (before : List Char) (c : Char) (ahead : List Char)

/-- That part of the state which the end of the text decides stays as it is. Or else the step is the
last one: no literal construct is open, and it closes constructs and opens none. -/
def EndStep (next : InlineState × Nat) : Prop :=
  (next.1.partialCloser = st.partialCloser ∧ next.1.labelClosedAtEnd = st.labelClosedAtEnd) ∨
    ((∀ x ∈ st.stack.head?, x.isLiteral = false) ∧ ahead.drop next.2 = [] ∧
      next.1.stack <:+ st.stack ∧ (next.1.partialCloser = st.partialCloser ∨
        ∃ marker : Marker, marker.length = 2 ∧ next.1.partialCloser = [marker.char]))

theorem endStep_stepCloseBracket (hst : ∀ x ∈ st.stack.head?, x.isLiteral = false) :
    EndStep st ahead (st.stepCloseBracket line ahead) := by
  unfold stepCloseBracket
  split
  · exact .inl ⟨rfl, rfl⟩
  · exact .inl ⟨rfl, rfl⟩
  · rename_i below hlabel
    split
    · exact .inl ⟨rfl, rfl⟩
    · exact .inr ⟨hst, rfl, closeLabel?_suffix hlabel, .inl rfl⟩
    · exact .inl ⟨rfl, rfl⟩

theorem endStep_stepDelimiters (hst : ∀ x ∈ st.stack.head?, x.isLiteral = false)
    {single double : Marker} (hmarkers : markersOf? c = some (single, double)) :
    EndStep st ahead (st.stepDelimiters line before c single double ahead) := by
  rw [stepDelimiters_eq line st before hmarkers]
  split
  · simp only
    generalize hclosing : runClosing single _ st.stack _ _ _ = closing
    have hcases : closing.missing = 0 ∨ (ahead.drop (runLength c ahead)).isEmpty = true ∧
        closing.remaining = 0 ∧ ∃ marker : Marker, marker.char = c ∧ marker.length = 2 ∧
          closing.missing = 1 := by
      rw [← hclosing, runClosing]
      split
      · obtain ⟨rfl, -⟩ := markersOf?_char hmarkers
        refine (closeRun_missing_cases ..).imp_right (And.imp_left fun hatEnd => ?_)
        exact (Bool.and_eq_true_iff.mp hatEnd).2
      · exact .inl rfl
    rcases hcases with hzero | ⟨hend, hremaining, marker, hchar, hlength, hone⟩
    · exact .inl ⟨if_pos hzero, rfl⟩
    · refine .inr ⟨hst, List.isEmpty_iff.mp hend, ?_, .inr ⟨marker, hlength, ?_⟩⟩
      · rw [hremaining, runOpening, ← hclosing]
        exact runClosing_suffix ..
      · simp [hone, hchar]
  · exact .inl ⟨rfl, rfl⟩

theorem endStep_step : EndStep st ahead (st.step line before c ahead) := by
  rcases step_cases line st before c ahead with
    hsame | ⟨hst, ⟨-, hstep⟩ | ⟨single, double, hmarkers, hstep⟩⟩
  · exact .inl hsame
  · exact hstep ▸ endStep_stepCloseBracket line st ahead hst
  · exact hstep ▸ endStep_stepDelimiters line st before c ahead hst hmarkers

theorem inOrder_empty : InOrder .empty := ⟨nested_nil, .inl rfl⟩

variable {line st before c ahead}

theorem InOrder.step (h : st.InOrder) : (st.step line before c ahead).1.InOrder := by
  refine ⟨(stackStep_step line st before c ahead).nested h.nested, ?_⟩
  rcases endStep_step line st before c ahead with ⟨hsame, -⟩ | ⟨-, -, -, hsame | hmarker⟩
  · rw [hsame]
    exact h.partialCloser_eq
  · rw [hsame]
    exact h.partialCloser_eq
  · exact .inr hmarker

theorem InOrder.passes {st' : InlineState} (h : st.InOrder)
    (hpasses : Passes line st before ahead st') :
    st'.InOrder := by
  induction hpasses with
  | here => exact h
  | onward _ ih => exact ih h.step

/-- The scan of a line goes through the state that it ends in. -/
theorem passes_scan (line : InlineLine) (st : InlineState) (before ahead : List Char) :
    Passes line st before ahead (scan line st before ahead) := by
  fun_induction scan line st before ahead with
  | case1 st before => exact .here st before []
  | case2 st before c ahead next ih => exact .onward ih

/-- What the end of the text cuts short leaves no literal construct open. -/
def LiteralFirst (st : InlineState) : Prop :=
  st.IsQuiet ∨ ∀ x ∈ st.stack, x.isLiteral = false

theorem literalFirst_scan (hquiet : st.IsQuiet) (hnested : Nested st.stack) :
    (scan line st before ahead).LiteralFirst := by
  fun_induction scan line st before ahead with
  | case1 => exact .inl hquiet
  | case2 st before c ahead next ih =>
    rcases endStep_step line st before c ahead with ⟨hpartial, hlabel⟩ | ⟨hst, hend, hsuffix, -⟩
    · exact ih ⟨hpartial.trans hquiet.1, hlabel.trans hquiet.2⟩
        ((stackStep_step line st before c ahead).nested hnested)
    · rw [hend, scan_nil]
      exact .inr fun x hx => hnested.isLiteral_eq_false hst x (hsuffix.subset hx)

end InlineState

/-! ### The invariant along the lines -/

/-- A fence has been opened by some line, and what has begun to close it does not close it. -/
structure OpenFence.InOrder (f : OpenFence) : Prop where
  openedBy : ∃ line, f.OpenedBy line
  partialClose_lt : f.partialClose < f.length

namespace ScanState

/-- What holds of every state that is visited. -/
structure InOrder (st : ScanState) : Prop where
  inline : st.inline.InOrder
  fence : ∀ f, st.fence = some f → f.InOrder

theorem inOrder_empty : InOrder .empty :=
  ⟨InlineState.inOrder_empty, fun _ h => nomatch h⟩

variable {st : ScanState} {text : List Char}

theorem startOf_cases (st : ScanState) (line : List Char) :
    st.startOf line = .empty ∨ st.startOf line = st.inline := by
  rw [startOf]
  exact ite_eq_or_eq ..

/-- A line outside fences leaves nothing open, or what its scan leaves open. -/
theorem inline_scanMarkup_cases (st : ScanState) (line : List Char) (final : Bool) :
    (st.scanMarkup line final).inline = .empty ∨
      (st.scanMarkup line final).inline =
        (st.startOf line).scan (lineView line final) (markersBefore line)
          (containerLead line).rest := by
  rw [scanMarkup_eq]
  split
  · exact .inl rfl
  · split
    · exact .inl rfl
    · split
      · exact .inl rfl
      · split
        · exact .inl rfl
        · exact .inr rfl

theorem inOrder_startOf (h : st.inline.InOrder) (line : List Char) : (st.startOf line).InOrder := by
  rcases st.startOf_cases line with hstart | hstart <;> rw [hstart]
  · exact InlineState.inOrder_empty
  · exact h

theorem inOrder_inline_scanMarkup (h : st.inline.InOrder) (line : List Char) (final : Bool) :
    (st.scanMarkup line final).inline.InOrder := by
  rcases st.inline_scanMarkup_cases line final with hscan | hscan <;> rw [hscan]
  · exact InlineState.inOrder_empty
  · exact (inOrder_startOf h line).passes (InlineState.passes_scan ..)

theorem InOrder.scanLine (h : st.InOrder) (line : List Char) (final : Bool) :
    (st.scanLine line final).InOrder := by
  refine ⟨?_, fun f hf => ?_⟩
  · rw [ScanState.scanLine]
    split
    · exact h.inline
    · exact inOrder_inline_scanMarkup h.inline line final
  · obtain ⟨opening, hopening⟩ :=
      openedBy_of_fence_scanLine (fun g hg => (h.fence g hg).openedBy) hf
    refine ⟨⟨opening, hopening⟩, ?_⟩
    rw [ScanState.scanLine] at hf
    split at hf
    · rename_i g hg
      rcases OpenFence.eq_of_step_eq_some hf with rfl | ⟨-, run, -, hshort, rfl, -, -⟩
      · exact (h.fence g hg).partialClose_lt
      · exact hshort
    · rw [(of_fence_scanMarkup hf).2]
      exact Nat.lt_of_lt_of_le (by decide) hopening.isSound.three_le_length

theorem InOrder.passLines (h : st.InOrder) (lines : List (List Char)) :
    (st.passLines lines).InOrder :=
  List.foldlRecOn lines _ h fun _ hs line _ => hs.scanLine (stripReturn line).1 false

theorem InOrder.scanLines (h : st.InOrder) (lines : List (List Char)) :
    (st.scanLines lines).InOrder := by
  fun_induction ScanState.scanLines st lines with
  | case1 => exact h
  | case2 st line => exact h.scanLine _ _
  | case3 st line lines _ ih => exact ih (h.scanLine _ _)

theorem Visited.inOrder (h : Visited text st) : st.InOrder := by
  cases h with
  | betweenLines => exact inOrder_empty.passLines _
  | withinLine _ _ hpasses =>
    exact ⟨(inOrder_startOf (inOrder_empty.passLines _).inline _).passes hpasses,
      fun _ hf => nomatch hf⟩
  | atEnd => exact inOrder_empty.scanLines _

theorem literalFirst_scanMarkup (hquiet : st.inline.IsQuiet) (hnested : Nested st.inline.stack)
    (line : List Char) (final : Bool) : (st.scanMarkup line final).inline.LiteralFirst := by
  rcases st.inline_scanMarkup_cases line final with hscan | hscan <;> rw [hscan]
  · exact .inl InlineState.isQuiet_empty
  · rcases st.startOf_cases line with hstart | hstart <;> rw [hstart]
    · exact InlineState.literalFirst_scan InlineState.isQuiet_empty nested_nil
    · exact InlineState.literalFirst_scan hquiet hnested

theorem literalFirst_scanLines (text : List Char) :
    (ScanState.empty.scanLines (splitLines text)).inline.LiteralFirst := by
  obtain ⟨lines, last, hlast⟩ := exists_isLastLine text
  have hquiet : (ScanState.empty.passLines lines).inline.IsQuiet :=
    isQuiet_passLines InlineState.isQuiet_empty lines
  rw [hlast.splitLines_eq, scanLines_concat, ScanState.scanLine]
  split
  · exact .inl hquiet
  · exact literalFirst_scanMarkup hquiet (inOrder_empty.passLines lines).inline.nested _ _

end ScanState

/-! ### What the suffix is like -/

theorem OpenConstruct.newline_not_mem_tail_closer (x : OpenConstruct) : '\n' ∉ x.closer.tail := by
  intro hmem
  obtain rfl := (of_mem_closer (List.mem_of_mem_tail hmem)).2.2 rfl
  exact absurd hmem (by decide)

theorem newline_not_mem_closersOf {stack : List OpenConstruct}
    (h : ∀ x ∈ stack, x.isLiteral = false) :
    '\n' ∉ closersOf stack :=
  fun hmem => absurd (h _ ((of_mem_closersOf hmem).2.2 rfl)) (by decide)

theorem mem_of_mem_tail_append {α : Type} {x : α} {xs ys : List α} (h : x ∈ (xs ++ ys).tail) :
    x ∈ xs.tail ∨ x ∈ ys := by
  cases xs with
  | nil => exact .inr (List.mem_of_mem_tail h)
  | cons y xs => exact List.mem_append.mp h

theorem newline_not_mem_tail_closersOf {stack : List OpenConstruct} (h : Nested stack) :
    '\n' ∉ (closersOf stack).tail := by
  cases stack with
  | nil => exact List.not_mem_nil
  | cons x below =>
    rw [closersOf_cons]
    intro hmem
    rcases mem_of_mem_tail_append hmem with hmem | hmem
    · exact x.newline_not_mem_tail_closer hmem
    · exact newline_not_mem_closersOf h.isLiteral_tail hmem

theorem InlineState.newline_not_mem_tail_suffix {st : InlineState} (h : st.InOrder)
    (hfirst : st.LiteralFirst) :
    '\n' ∉ st.suffix.tail := by
  rcases hfirst with hquiet | hplain
  · rw [hquiet.suffix_eq]
    exact newline_not_mem_tail_closersOf h.nested
  · -- no closer and no address holds a line feed
    intro hmem
    rw [InlineState.suffix] at hmem
    rcases List.mem_append.mp (List.mem_of_mem_tail hmem) with hmem | hmem
    · rcases List.mem_append.mp hmem with hmem | hmem
      · rcases h.partialCloser_eq with hnil | ⟨marker, -, hchar⟩
        · rw [hnil] at hmem
          exact absurd hmem List.not_mem_nil
        · rw [hchar, List.mem_singleton] at hmem
          cases marker <;> exact absurd hmem (by decide)
      · split at hmem
        · exact absurd hmem (by decide)
        · exact absurd hmem List.not_mem_nil
    · exact newline_not_mem_closersOf hplain hmem

namespace OpenFence

variable {f : OpenFence}

theorem closer_eq_nil_iff (h : f.InOrder) :
    f.closer = [] ↔ f.hasBody = false ∧ f.partialClose = 0 := by
  have hlt := h.partialClose_lt
  rw [closer]
  split
  · rename_i hpartial
    refine iff_of_false (mt (List.replicate_eq_nil_iff _).mp ?_) fun hand => ?_
    · omega
    · omega
  · rename_i hpartial
    have hzero : f.partialClose = 0 := Nat.eq_zero_of_not_pos hpartial
    split
    · rename_i hbody
      simp [hbody]
    · rename_i hbody
      simp [hbody, hzero]

theorem newline_not_mem_tail_closer (h : f.IsSound) : '\n' ∉ f.closer.tail := by
  rw [closer]
  split
  · intro hmem
    exact f.mark.of_char.2.2.2 (List.eq_of_mem_replicate (List.mem_of_mem_tail hmem)).symm
  · split
    · exact h.newline_not_mem_closingLine
    · exact List.not_mem_nil

end OpenFence

/-! ### The markers in front of a fence -/

/-- Each block quote marker that is read before the first list marker is read again when a line is
compared with the containers of a fence. -/
theorem ContainerLead.exists_rest_suffix_dropQuoteMarkers (cs : List Char) (quoteDepth : Nat)
    (listItem : Bool) :
    ∃ k, (read cs quoteDepth listItem).quoteDepth = quoteDepth + k ∧
      (read cs quoteDepth listItem).rest <:+ dropQuoteMarkers k cs := by
  fun_induction read cs quoteDepth listItem with
  | case1 cs quoteDepth listItem rest hcs ih =>
    obtain ⟨k, hdepth, hsuffix⟩ := ih
    refine ⟨k + 1, by rw [hdepth]; omega, ?_⟩
    rw [dropQuoteMarkers_of_quote hcs]
    exact hsuffix
  | case2 cs quoteDepth listItem hcs => exact ⟨0, rfl, List.suffix_refl cs⟩
  | case3 cs quoteDepth listItem c r hquote hcs rest hmarker ih =>
    obtain ⟨k, hdepth, -⟩ := ih
    have hrest : rest <:+ cs :=
      (afterListMarker?_suffix hmarker).trans (hcs ▸ dropSpaces_suffix 3 cs)
    refine ⟨k, hdepth, ?_⟩
    rw [dropQuoteMarkers_of_ne (by rw [hcs]; exact fun heq => hquote (Option.some.inj heq))]
    exact (read_rest_suffix _ _ _).trans ((dropSpaces_suffix 4 rest).trans hrest)
  | case4 cs quoteDepth listItem c r hquote hcs hmarker => exact ⟨0, rfl, List.suffix_refl cs⟩

/-- The indentation of a fence is what its opening line has in front of the fence, behind its block
quotes. -/
theorem OpenFence.OpenedBy.length_dropQuoteMarkers_eq {f : OpenFence} {line : List Char}
    (h : f.OpenedBy line) :
    (dropQuoteMarkers f.quoteDepth line).length = f.indent + (lineContent line).length := by
  obtain ⟨-, -, hdepth, hindent, -⟩ := openFence?_eq_some h
  obtain ⟨k, hk, hsuffix⟩ := ContainerLead.exists_rest_suffix_dropQuoteMarkers line 0 false
  rw [Nat.zero_add] at hk
  have hle : (lineContent line).length ≤
      (dropQuoteMarkers (containerLead line).quoteDepth line).length := by
    rw [containerLead, hk]
    exact ((dropSpaces_suffix 3 _).trans hsuffix).length_le
  change f.quoteDepth = _ at hdepth
  change f.indent = _ at hindent
  rw [hdepth, hindent]
  omega

/-! ### All that is reported -/

section Reported

variable {text : List Char} {lineBreakFollows : Bool} {f : OpenFence}

theorem inOrder_of_fence_scanText (h : (scanText text lineBreakFollows).fence = some f) :
    f.InOrder := by
  rw [fence_scanText] at h
  exact (ScanState.inOrder_empty.scanLines (splitLines text)).fence f h

theorem suffix_eq_closer_of_fence (h : (scanText text lineBreakFollows).fence = some f) :
    (scanText text lineBreakFollows).suffix = f.closer := by
  rw [fence_scanText] at h
  rw [scanText_of_fence_eq_some h]

/-- What is left open is closed by something. -/
theorem suffix_ne_nil_of_openConstructs (h : (scanText text lineBreakFollows).openConstructs ≠ []) :
    (scanText text lineBreakFollows).suffix ≠ [] := by
  rcases scanText_cases text lineBreakFollows with ⟨f, -, hscan⟩ | ⟨row, -, -, hscan⟩ |
    ⟨-, -, hscan⟩
  · rw [hscan] at h
    exact absurd rfl h
  · rw [hscan]
    exact List.cons_ne_nil _ _
  · have hnested := (ScanState.isReached_scanLines text).inline.nested
    rw [hscan] at h ⊢
    obtain ⟨x, below, hstack⟩ := List.exists_cons_of_ne_nil (List.reverse_ne_nil_iff.mp h)
    rw [hstack] at hnested
    have hcloser := OpenConstruct.closer_ne_nil (hnested.isSound x List.mem_cons_self)
    simp [InlineState.suffix, hstack, hcloser]

/-- A separator row has at least one column. -/
theorem exists_replicate_of_separatorRow? {row : List Char}
    (h : separatorRow? text lineBreakFollows = some row) :
    ∃ k, 1 ≤ k ∧ row = '|' :: (List.replicate k [' ', '-', ' ', '|']).flatten := by
  obtain ⟨-, h⟩ := Option.ite_none_right_eq_some.mp h
  unfold tableSeparatorFor at h
  simp only at h
  split at h
  · cases h
  · split at h
    · cases h
    · exact ⟨_, Nat.le_max_left _ _, (Option.some.inj h).symm⟩

theorem newline_not_mem_separatorRow? {row : List Char}
    (h : separatorRow? text lineBreakFollows = some row) :
    '\n' ∉ row := by
  obtain ⟨-, h⟩ := Option.ite_none_right_eq_some.mp h
  obtain ⟨-, -, -, hrow⟩ := exists_cons_of_tableSeparatorFor h
  intro hmem
  rcases hrow _ hmem with heq | heq | heq <;> exact absurd heq (by decide)

/-- A line feed is the first character of a suffix. -/
theorem newline_not_mem_tail_suffix (text : List Char) (lineBreakFollows : Bool) :
    '\n' ∉ (scanText text lineBreakFollows).suffix.tail := by
  rcases scanText_cases text lineBreakFollows with ⟨f, hfence, hscan⟩ | ⟨row, -, hrow, hscan⟩ |
    ⟨-, -, hscan⟩
  · rw [hscan]
    exact OpenFence.newline_not_mem_tail_closer
      ((ScanState.isReached_scanLines text).fence f hfence).1
  · rw [hscan]
    exact newline_not_mem_separatorRow? hrow
  · rw [hscan]
    exact InlineState.newline_not_mem_tail_suffix (ScanState.inOrder_empty.scanLines _).inline
      (ScanState.literalFirst_scanLines text)

end Reported

theorem mem_iff_head?_eq_of_not_mem_tail {α : Type} {x : α} {xs : List α} (h : x ∉ xs.tail) :
    x ∈ xs ↔ xs.head? = some x := by
  cases xs with
  | nil => simp
  | cons y ys =>
    replace h : x ∉ ys := h
    rw [List.mem_cons, or_iff_left h, List.head?_cons, Option.some.injEq, eq_comm]

/-- At every point of the scan of a text, only the innermost construct is a code span, a formula or
an address; all below it are markers and labels. A code span has a run and an address a depth, and a
closing run that is cut short lacks the second character of a pair. An open fence has its three
characters and still lacks a part of its closing run. Some line opens it, and it is indented by what
any such line has between its block quotes and the fence. Its closing line starts with spaces and
block quote markers.

So whatever is open is closed by something; nothing closes a fence exactly if it has neither a body
nor the start of a closing run; a separator row has a column; and a suffix has one line feed at
most, which is its first character, exactly if it starts on a line of its own. -/
theorem scan_stays_in_order (text : List Char) :
    (∀ st, ScanState.Visited text st →
      (∀ x ∈ st.inline.stack.tail,
        (∃ marker, x = .delimiter marker) ∨ ∃ image footnote, x = .linkLabel image footnote) ∧
      (∀ run, .codeSpan run ∈ st.inline.stack → 1 ≤ run) ∧
      (∀ depth, .linkDestination depth ∈ st.inline.stack → 1 ≤ depth) ∧
      (st.inline.partialCloser = [] ∨
        ∃ marker : Marker, marker.length = 2 ∧ st.inline.partialCloser = [marker.char]) ∧
      ∀ f, st.fence = some f →
        3 ≤ f.length ∧ f.partialClose < f.length ∧ (∀ c ∈ f.leader, c = ' ' ∨ c = '>') ∧
          (∃ line, f.OpenedBy line) ∧
          ∀ line, f.OpenedBy line →
            (dropQuoteMarkers f.quoteDepth line).length = f.indent + (lineContent line).length) ∧
      ∀ lineBreakFollows,
        let r := scanText text lineBreakFollows
        (r.openConstructs ≠ [] → r.suffix ≠ []) ∧
          (∀ f, r.fence = some f → (r.suffix = [] ↔ f.hasBody = false ∧ f.partialClose = 0)) ∧
          (∀ row, separatorRow? text lineBreakFollows = some row →
            ∃ k, 1 ≤ k ∧ row = '|' :: (List.replicate k [' ', '-', ' ', '|']).flatten) ∧
          '\n' ∉ r.suffix.tail ∧ ('\n' ∈ r.suffix ↔ r.suffixStartsLine = true) := by
  refine ⟨fun st hst => ?_, fun lineBreakFollows => ?_⟩
  · have horder := hst.inOrder
    have hnested := horder.inline.nested
    refine ⟨fun x hx => ?_, fun run hrun => hnested.isSound _ hrun,
      fun depth hdepth => hnested.isSound _ hdepth, horder.inline.partialCloser_eq, fun f hf => ?_⟩
    · have hliteral := hnested.isLiteral_tail x hx
      cases x with
      | delimiter marker => exact .inl ⟨marker, rfl⟩
      | linkLabel image footnote => exact .inr ⟨image, footnote, rfl⟩
      | _ => exact absurd hliteral (by simp [OpenConstruct.isLiteral])
    · obtain ⟨⟨line, hline⟩, hlt⟩ := horder.fence f hf
      obtain ⟨lead, -, htab, hleader, -, -⟩ := hline.exists_lead
      refine ⟨hline.isSound.three_le_length, hlt, fun c hc => ?_, ⟨line, hline⟩,
        fun _ hopened => hopened.length_dropQuoteMarkers_eq⟩
      exact (mem_blankMarkers htab c (hleader ▸ hc)).symm
  · have htail := newline_not_mem_tail_suffix text lineBreakFollows
    refine ⟨suffix_ne_nil_of_openConstructs, fun f hf => ?_,
      fun row => exists_replicate_of_separatorRow?, htail, ?_⟩
    · rw [suffix_eq_closer_of_fence hf]
      exact OpenFence.closer_eq_nil_iff (inOrder_of_fence_scanText hf)
    · rw [mem_iff_head?_eq_of_not_mem_tail htail, suffixStartsLine_scanText, beq_iff_eq]

end LiveMarkdown
