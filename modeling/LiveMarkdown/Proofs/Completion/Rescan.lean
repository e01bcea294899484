import LiveMarkdown.Proofs.Completion.LongerLine

/-!
# Scanning a longer text

The scan of a text that stops at a letter or a digit, taken up again when more text follows. On the
same line the scan goes on from the constructs that the text has left open. On a line of its own
what follows is scanned as any line after the text.

## Main definitions

* `lineContent`, `lineView`, `markersBefore`, `ScanState.startOf`: the parts of the scan of a line.

## Main results

* `ScanState.scanMarkup_append`: the scan of a line that goes on.
* `OpenFence.exists_step_eq_some_of_plainEnd`: a line that ends in a letter or a digit closes no
  fence.
* `ScanState.scanLines_append`, `ScanState.scanLines_append_newline`: the scan of a text that goes
  on.
-/

namespace LiveMarkdown

variable {line more : List Char}

/-! ### The parts of the scan of a line -/

/-- The content of a line: what follows its markers and their indentation. -/
def lineContent (line : List Char) : List Char :=
  dropSpaces 3 (containerLead line).rest

/-- What the scan knows about a line as a whole. -/
def lineView (line : List Char) (final : Bool) : InlineLine :=
  ⟨final, (lineContent line).length, (containerLead line).listItem⟩

/-- The markers in front of the content, nearest first. -/
def markersBefore (line : List Char) : List Char :=
  (line.take (line.length - (containerLead line).rest.length)).reverse

/-- What is open where the content of a line starts. -/
def ScanState.startOf (st : ScanState) (line : List Char) : InlineState :=
  if (containerLead line).listItem || isAtxHeading (lineContent line) then .empty else st.inline

theorem ScanState.scanMarkup_eq (st : ScanState) (line : List Char) (final : Bool) :
    st.scanMarkup line final =
      if isThematicBreak line then empty
      else if isBlankLine (lineContent line) then empty
      else
        match openFence? line (lineContent line) (containerLead line).quoteDepth with
        | some fence => { empty with fence := some fence }
        | none =>
          if !final && (isAtxHeading (lineContent line) || isPipeRow line) then empty
          else ⟨(st.startOf line).scan (lineView line final) (markersBefore line)
            (containerLead line).rest, none⟩ := rfl

theorem rest_ne_nil_of_plainEnd (hplain : PlainEnd line) (hne : line ≠ []) :
    (containerLead line).rest ≠ [] :=
  ContainerLead.rest_ne_nil hplain hne

theorem plainEnd_rest (hplain : PlainEnd line) : PlainEnd (containerLead line).rest :=
  hplain.of_suffix (containerLead_rest_suffix line)

theorem lineContent_ne_nil (hplain : PlainEnd line) (hne : line ≠ []) : lineContent line ≠ [] :=
  (plainEnd_rest hplain).dropSpaces_ne_nil (rest_ne_nil_of_plainEnd hplain hne) 3

theorem plainEnd_lineContent (hplain : PlainEnd line) : PlainEnd (lineContent line) :=
  (plainEnd_rest hplain).of_suffix (dropSpaces_suffix 3 _)

theorem ScanState.scanMarkup_of_plainEnd (st : ScanState) (hplain : PlainEnd line) (hne : line ≠ [])
    (final : Bool) :
    st.scanMarkup line final =
      match openFence? line (lineContent line) (containerLead line).quoteDepth with
      | some fence => { empty with fence := some fence }
      | none =>
        if !final && isAtxHeading (lineContent line) then empty
        else ⟨(st.startOf line).scan (lineView line final) (markersBefore line)
          (containerLead line).rest, none⟩ := by
  have hbreak : isThematicBreak line = false := by
    simpa using isThematicBreak_append hplain hne []
  have hblank : isBlankLine (lineContent line) = false := by
    simpa using isBlankLine_append (plainEnd_lineContent hplain) (lineContent_ne_nil hplain hne) []
  rw [scanMarkup_eq, hbreak, hblank, isPipeRow_of_plainEnd hplain hne, Bool.or_false]
  rfl

/-! ### A task marker that is cut short -/

theorem InlineState.exists_scan_dropSpaces (line : InlineLine) (n : Nat) (before cs : List Char) :
    ∃ before', scan line .empty before cs = scan line .empty before' (dropSpaces n cs) := by
  fun_induction dropSpaces n cs generalizing before with
  | case1 n cs ih =>
    obtain ⟨before', h⟩ := ih (' ' :: before)
    refine ⟨before', ?_⟩
    rw [scan_cons, ← h]
    rfl
  | case2 n cs hcs => exact ⟨before, rfl⟩

/-- A letter or a digit alone is text. -/
theorem InlineState.scan_singleton {view : InlineLine} {st : InlineState} {before : List Char}
    {c : Char} (hc : c.isAlphanum = true) : scan view st before [c] = st := by
  rw [scan_cons, step_of_isAlphanum hc, List.drop_nil, scan_nil]

section CutTask

variable {view : InlineLine} {rest cs : List Char}

theorem InlineState.exists_scan_of_isCutTask (before : List Char)
    (hlength : view.contentLength = (dropSpaces 3 rest).length) (hcs : cs <:+ rest)
    (hcut : IsCutTask view cs) :
    ∃ before', scan view .empty before rest = scan view .empty before' cs := by
  obtain ⟨-, htwo, hmarker⟩ := hcut
  have hcontent : dropSpaces 3 rest = cs := by
    have hle : cs.length = (dropSpaces 3 rest).length := by
      rw [← hlength, htwo]
      rcases hmarker with rfl | rfl <;> rfl
    have hsuffix := List.suffix_of_suffix_length_le hcs (dropSpaces_suffix 3 rest) hle.le
    exact (hsuffix.eq_of_length hle).symm
  exact hcontent ▸ exists_scan_dropSpaces view 3 before rest

/-- A task marker that is cut short opens nothing. Where the text does not end, what looks like the
start of one is a label. -/
theorem InlineState.scan_of_isCutTask (before : List Char)
    (hlength : view.contentLength = (dropSpaces 3 rest).length) (hcs : cs <:+ rest)
    (hcut : IsCutTask view cs) :
    (view.final = true → scan view .empty before rest = .empty) ∧
      (view.final = false →
        ∃ image footnote, (scan view .empty before rest).stack = [.linkLabel image footnote]) := by
  obtain ⟨before', hscan⟩ := exists_scan_of_isCutTask before hlength hcs hcut
  obtain ⟨hitem, htwo, hmarker⟩ := hcut
  rw [hscan]
  obtain ⟨final, contentLength, listItem⟩ := view
  obtain rfl : listItem = true := hitem
  obtain rfl : contentLength = 2 := htwo
  constructor
  · rintro rfl
    rcases hmarker with rfl | rfl <;>
    · rw [scan_cons]
      exact scan_nil _ _ _
  · rintro rfl
    rcases hmarker with rfl | rfl <;>
    · rw [scan_cons]
      exact ⟨_, _, congrArg InlineState.stack (scan_singleton (by decide))⟩

end CutTask

/-! ### A line that goes on -/

/-- A display formula on a line of its own is not opened on a line that ends in a letter or a
digit. -/
theorem InlineState.mem_of_ownLine_mem_scan {view : InlineLine} {st : InlineState}
    {before ahead : List Char} {display : Bool} (hplain : PlainEnd ahead)
    (h : .math display true ∈ (scan view st before ahead).stack) :
    .math display true ∈ st.stack := by
  fun_induction scan view st before ahead with
  | case1 => exact h
  | case2 st before c ahead next ih =>
    rcases (stackStep_step view st before c ahead).mem_or_opensAt
      (ih (hplain.of_cons.drop _) h) with hmem | hopens
    · exact hmem
    · cases hopens with
      | math display ownLine hc hown =>
        subst hc
        by_cases hne : ahead = []
        · subst hne
          exact absurd hplain.head_of_singleton (by decide)
        · have hdollar : Char.isAlphanum '$' = false := by decide
          exact absurd (hown rfl).2 (drop_ne_nil_of_lt (hplain.of_cons.runLength_lt hne hdollar))

namespace ScanState

variable {st : ScanState} {i : InlineState}

/-- The view of a line that goes on, unless what follows completes a list marker. -/
theorem containerLead_append (hplain : PlainEnd line) (hne : line ≠ [])
    (hdigit : ∀ x ∈ more.head?, x.isDigit = false) :
    containerLead (line ++ more) =
        { containerLead line with rest := (containerLead line).rest ++ more } ∨
      ∃ rest, (more = '.' :: rest ∨ more = ')' :: rest) ∧ endsMarker rest = true ∧
        (rest = [] → (containerLead (line ++ more)).rest = []) := by
  rcases ContainerLead.read_append 0 false hplain hne hdigit with
    h | ⟨rest, depth, heq, hends, hread⟩
  · exact Or.inl h
  · refine Or.inr ⟨rest, heq, hends, fun hrest => ?_⟩
    subst hrest
    rw [containerLead, hread]
    exact congrArg ContainerLead.rest ContainerLead.read_nil

theorem scan_of_scanMarkup_eq (hplain : PlainEnd line) (hne : line ≠ [])
    (hscan : st.scanMarkup line true = ⟨i, none⟩) :
    openFence? line (lineContent line) (containerLead line).quoteDepth = none ∧
      (st.startOf line).scan (lineView line true) (markersBefore line) (containerLead line).rest =
      i := by
  rw [scanMarkup_of_plainEnd st hplain hne] at hscan
  split at hscan
  · exact absurd (congrArg ScanState.fence hscan) (by simp)
  · rename_i hfence
    refine ⟨hfence, ?_⟩
    simpa using hscan

/-- A line that leaves something open does not end in a task marker that is cut short. -/
theorem not_isCutTask_of_stack_ne_nil (hopen : ((st.startOf line).scan (lineView line true)
    (markersBefore line) (containerLead line).rest).stack ≠ []) {cs : List Char}
    (hcs : cs <:+ (containerLead line).rest) : ¬IsCutTask (lineView line true) cs := by
  intro hcut
  have hitem : (containerLead line).listItem = true := hcut.1
  have hstart : st.startOf line = .empty := by
    rw [startOf, hitem, Bool.true_or, if_pos rfl]
  rw [hstart, (InlineState.scan_of_isCutTask (markersBefore line) rfl hcs hcut).1 rfl] at hopen
  exact hopen rfl

section SameContainers

variable (hplain : PlainEnd line) (hne : line ≠ [])
  (hlead : containerLead (line ++ more) =
    { containerLead line with rest := (containerLead line).rest ++ more })

include hplain hne hlead

theorem lineContent_append : lineContent (line ++ more) = lineContent line ++ more := by
  rw [lineContent, hlead]
  exact dropSpaces_append (lineContent_ne_nil hplain hne)

theorem continues_lineView_append (final final' : Bool) :
    (lineView line final).Continues (lineView (line ++ more) final') more.length := by
  refine ⟨?_, ?_⟩
  · rw [lineView, lineView, hlead]
  · simp only [lineView, lineContent_append hplain hne hlead, List.length_append]

/-- The scan of a line that goes on behind the same markers. -/
theorem scanMarkup_append_eq (st : ScanState)
    (hfence : openFence? line (lineContent line) (containerLead line).quoteDepth = none)
    (final : Bool) :
    st.scanMarkup (line ++ more) final =
      if !final && (isAtxHeading (lineContent line) || isPipeRow (line ++ more)) then empty
      else ⟨(st.startOf line).scan (lineView (line ++ more) final) (markersBefore line)
        ((containerLead line).rest ++ more), none⟩ := by
  have hcontent := lineContent_append hplain hne hlead
  have hcontentPlain := plainEnd_lineContent hplain
  have hcontentNe := lineContent_ne_nil hplain hne
  have hheading : isAtxHeading (lineContent line ++ more) = isAtxHeading (lineContent line) :=
    isAtxHeading_append hcontentPlain hcontentNe
  have hstart : st.startOf (line ++ more) = st.startOf line := by
    rw [startOf, startOf, hcontent, hheading, hlead]
  have hbefore : markersBefore (line ++ more) = markersBefore line := by
    rw [markersBefore, markersBefore, hlead, List.length_append, List.length_append,
      Nat.add_sub_add_right, List.take_append_of_le_length (Nat.sub_le _ _)]
  rw [scanMarkup_eq, isThematicBreak_append hplain hne, hcontent,
    isBlankLine_append hcontentPlain hcontentNe, hheading, hstart, hbefore, hlead,
    openFence?_append hcontentPlain hcontentNe hfence]
  rfl

end SameContainers

/-- On a line that goes on, the scan goes on from what the line has left open. -/
theorem scanMarkup_append (hplain : PlainEnd line) (hne : line ≠ [])
    (hscan : st.scanMarkup line true = ⟨i, none⟩) (hopen : i.stack ≠ [])
    (hdigit : ∀ x ∈ more.head?, x.isDigit = false)
    (hcolon : (more.dropWhile isShortcodeChar).head? ≠ some ':') :
    (∃ view before, view.final = true ∧ before.head? = line.getLast? ∧
        st.scanMarkup (line ++ more) true = ⟨InlineState.scan view i before more, none⟩) ∨
      ∃ rest, (more = '.' :: rest ∨ more = ')' :: rest) ∧ endsMarker rest = true ∧
        (rest = [] → st.scanMarkup (line ++ more) true = empty) := by
  obtain ⟨hfence, rfl⟩ := scan_of_scanMarkup_eq hplain hne hscan
  rcases containerLead_append hplain hne hdigit with hlead | ⟨rest, heq, hends, hrest⟩
  · left
    refine ⟨lineView (line ++ more) true, (containerLead line).rest.reverse ++ markersBefore line,
      rfl, ?_, ?_⟩
    · have hrestNe := rest_ne_nil_of_plainEnd hplain hne
      rw [head?_append_of_ne_nil (List.reverse_ne_nil_iff.mpr hrestNe), List.head?_reverse]
      exact getLast?_of_suffix (containerLead_rest_suffix line) hrestNe
    · rw [scanMarkup_append_eq hplain hne hlead st hfence true, if_neg (by simp),
        InlineState.scan_append _ _ (plainEnd_rest hplain)
          (continues_lineView_append hplain hne hlead true true)
          (fun cs hcs hcut => absurd hcut (not_isCutTask_of_stack_ne_nil hopen hcs)) hcolon]
  · refine Or.inr ⟨rest, heq, hends, fun hnil => ?_⟩
    have hblank : lineContent (line ++ more) = [] := by
      rw [lineContent, hrest hnil]
      rfl
    rw [scanMarkup_eq, isThematicBreak_append hplain hne, hblank]
    rfl

/-- Without a task marker that is cut short, it does not matter for the constructs that a line
leaves open whether the text ends there. -/
theorem scan_lineView_false (st : ScanState) (hplain : PlainEnd line)
    (hcut : ∀ cs, cs <:+ (containerLead line).rest → ¬IsCutTask (lineView line true) cs) :
    (st.startOf line).scan (lineView line false) (markersBefore line) (containerLead line).rest =
      (st.startOf line).scan (lineView line true) (markersBefore line)
        (containerLead line).rest := by
  have hview : (lineView line true).Continues (lineView line false) ([] : List Char).length :=
    ⟨rfl, rfl⟩
  have happend :=
    InlineState.scan_append (st.startOf line) (markersBefore line) (plainEnd_rest hplain) hview
    (fun cs hcs hmarker => absurd hmarker (hcut cs hcs)) (by simp)
  rw [List.append_nil, InlineState.scan_nil] at happend
  exact happend

/-- With a display formula open on a line of its own, the line before it may be followed by another
one. -/
theorem scanMarkup_of_ownLine (hplain : PlainEnd line) (hne : line ≠ [])
    (hscan : st.scanMarkup line true = ⟨i, none⟩) {display : Bool}
    (hown : .math display true ∈ i.stack) : st.scanMarkup line false = ⟨i, none⟩ := by
  obtain ⟨hfence, rfl⟩ := scan_of_scanMarkup_eq hplain hne hscan
  have hmem := InlineState.mem_of_ownLine_mem_scan (plainEnd_rest hplain) hown
  have hheading : isAtxHeading (lineContent line) = false := by
    refine Bool.eq_false_iff.mpr fun hheading => ?_
    rw [startOf, hheading, Bool.or_true, if_pos rfl] at hmem
    exact absurd hmem List.not_mem_nil
  have hview := scan_lineView_false st hplain fun cs hcs =>
    not_isCutTask_of_stack_ne_nil (List.ne_nil_of_mem hown) hcs
  rw [scanMarkup_of_plainEnd st hplain hne, hfence, hheading]
  simp only [Bool.and_false, Bool.false_eq_true, if_false, hview]

end ScanState

/-! ### A text that goes on -/

theorem dropQuoteMarkers_suffix (n : Nat) (cs : List Char) : dropQuoteMarkers n cs <:+ cs := by
  fun_induction dropQuoteMarkers n cs with
  | case1 cs => exact List.suffix_refl _
  | case2 n cs rest hcs ih =>
    have hrest : rest <:+ cs := (List.suffix_cons '>' rest).trans (hcs ▸ dropSpaces_suffix 3 cs)
    exact (ih.trans (dropSpaces_suffix 1 rest)).trans hrest
  | case3 n cs hcs => exact List.suffix_refl _

theorem PlainEnd.dropQuoteMarkers_ne_nil {cs : List Char} (h : PlainEnd cs) (hne : cs ≠ [])
    (n : Nat) :
    dropQuoteMarkers n cs ≠ [] := by
  fun_induction dropQuoteMarkers n cs with
  | case1 cs => exact hne
  | case2 n cs rest hcs ih =>
    have hquote : PlainEnd ('>' :: rest) := h.of_suffix (hcs ▸ dropSpaces_suffix 3 cs)
    exact ih (hquote.of_cons.of_suffix (dropSpaces_suffix 1 rest))
      (hquote.of_cons.dropSpaces_ne_nil (hquote.ne_nil_of_cons (by decide)) 1)
  | case3 n cs hcs => exact hne

/-- A line that ends in a letter or a digit closes no fence. -/
theorem OpenFence.exists_step_eq_some_of_plainEnd (f : OpenFence) (hplain : PlainEnd line)
    (hne : line ≠ []) (final : Bool) : ∃ g, f.step line final = some g := by
  have hinner : PlainEnd (dropQuoteMarkers f.quoteDepth line) :=
    hplain.of_suffix (dropQuoteMarkers_suffix _ _)
  have hinnerNe := hplain.dropQuoteMarkers_ne_nil hne f.quoteDepth
  have hbody : PlainEnd ((dropQuoteMarkers f.quoteDepth line).dropWhile isSpace) :=
    hinner.of_suffix (List.dropWhile_suffix _)
  have hbodyNe : (dropQuoteMarkers f.quoteDepth line).dropWhile isSpace ≠ [] := by
    obtain ⟨c, hc, hplainC⟩ := hinner.exists_mem hinnerNe
    rw [ne_eq, List.dropWhile_eq_nil_iff]
    exact fun hspace => absurd (hspace c hc) (by simp [isSpace_of_isAlphanum hplainC])
  have hmark : f.mark.char.isAlphanum = false := by cases f.mark <;> decide
  have htail := drop_ne_nil_of_lt (hbody.runLength_lt hbodyNe hmark)
  have hblank := isBlankLine_append (hbody.drop _) htail []
  rw [List.append_nil] at hblank
  unfold OpenFence.step
  simp only [hblank, Bool.and_false, Bool.false_eq_true, if_false]
  split <;> exact ⟨_, rfl⟩

/-- A text that stops at a letter or a digit, outside fences, with its lines. -/
structure StopsPlain (text : List Char) (lines : List (List Char)) (last : List Char) : Prop where
  isLastLine : IsLastLine text lines last
  plainEnd : PlainEnd last
  ne_nil : last ≠ []
  getLast?_eq : last.getLast? = text.getLast?
  fence_eq : (ScanState.empty.passLines lines).fence = none
  scanMarkup_eq : (ScanState.empty.passLines lines).scanMarkup last true =
    ⟨(ScanState.empty.scanLines (splitLines text)).inline, none⟩

theorem exists_stopsPlain {text : List Char} {c : Char} (htext : text.getLast? = some c)
    (hc : c.isAlphanum = true)
    (hfence : (ScanState.empty.scanLines (splitLines text)).fence = none) :
    ∃ lines last, StopsPlain text lines last := by
  obtain ⟨lines, last, hlast⟩ := exists_isLastLine text
  have hlastC : last.getLast? = some c := hlast.getLast?_eq (ne_of_isAlphanum hc (by decide)) htext
  have hplain : PlainEnd last := plainEnd_of_getLast? hlastC hc
  have hne : last ≠ [] := by
    rintro rfl
    exact absurd hlastC (by simp)
  have hreturn : last.getLast? ≠ some '\r' := fun heq => absurd (hplain _ heq) (by decide)
  have hscan := ScanState.scanLines_of_isLastLine hlast hreturn .empty
  have hbefore : (ScanState.empty.passLines lines).fence = none := by
    cases hopen : (ScanState.empty.passLines lines).fence with
    | none => rfl
    | some f =>
      obtain ⟨g, hg⟩ := f.exists_step_eq_some_of_plainEnd hplain hne true
      rw [hscan, ScanState.scanLine, hopen] at hfence
      exact absurd (hg.symm.trans hfence) (by simp)
  refine ⟨lines, last, hlast, hplain, hne, hlastC.trans htext.symm, hbefore, ?_⟩
  have hmarkup : (ScanState.empty.passLines lines).scanLine last true =
      (ScanState.empty.passLines lines).scanMarkup last true := by
    rw [ScanState.scanLine, hbefore]
  rw [← hmarkup, ← hscan, ← hfence]

namespace StopsPlain

variable {text last : List Char} {lines : List (List Char)}

/-- Nothing is cut short at a letter or a digit. -/
theorem isQuiet (h : StopsPlain text lines last) :
    (ScanState.empty.scanLines (splitLines text)).inline.IsQuiet := by
  obtain ⟨-, hi⟩ := ScanState.scan_of_scanMarkup_eq h.plainEnd h.ne_nil h.scanMarkup_eq
  have hstart : ((ScanState.empty.passLines lines).startOf last).IsQuiet := by
    rw [ScanState.startOf]
    split
    · exact InlineState.isQuiet_empty
    · exact ScanState.isQuiet_passLines InlineState.isQuiet_empty lines
  rw [← hi]
  exact hstart.scan_of_plainEnd (plainEnd_rest h.plainEnd)

/-- On the same line, the scan goes on from what the text has left open. -/
theorem scanLines_append (h : StopsPlain text lines last)
    (hopen : (ScanState.empty.scanLines (splitLines text)).inline.stack ≠ [])
    (hnewline : '\n' ∉ more) (hreturn : more.getLast? ≠ some '\r')
    (hdigit : ∀ x ∈ more.head?, x.isDigit = false)
    (hcolon : (more.dropWhile isShortcodeChar).head? ≠ some ':') :
    (∃ view before, view.final = true ∧ before.head? = text.getLast? ∧
        ScanState.empty.scanLines (splitLines (text ++ more)) =
          ⟨InlineState.scan view (ScanState.empty.scanLines (splitLines text)).inline before more,
            none⟩) ∨
      ∃ rest, (more = '.' :: rest ∨ more = ')' :: rest) ∧ endsMarker rest = true ∧
        (rest = [] → ScanState.empty.scanLines (splitLines (text ++ more)) = .empty) := by
  have hlastReturn : (last ++ more).getLast? ≠ some '\r' := by
    rw [List.getLast?_append]
    cases hmore : more.getLast? with
    | none =>
      rw [Option.none_or]
      exact fun heq => absurd (h.plainEnd _ heq) (by decide)
    | some x =>
      rw [Option.some_or, ← hmore]
      exact hreturn
  have hscan := ScanState.scanLines_of_isLastLine (h.isLastLine.append hnewline) hlastReturn .empty
  rw [ScanState.scanLine, h.fence_eq] at hscan
  rw [hscan, ← h.getLast?_eq]
  exact ScanState.scanMarkup_append h.plainEnd h.ne_nil h.scanMarkup_eq hopen hdigit hcolon

/-- Behind a display formula on a line of its own, what follows is the next line. -/
theorem scanLines_append_newline (h : StopsPlain text lines last) {display : Bool}
    (hown : .math display true ∈ (ScanState.empty.scanLines (splitLines text)).inline.stack)
    (hnewline : '\n' ∉ more) (hreturn : more.getLast? ≠ some '\r') :
    ScanState.empty.scanLines (splitLines (text ++ '\n' :: more)) =
      ScanState.scanMarkup ⟨(ScanState.empty.scanLines (splitLines text)).inline,
        none⟩ more true := by
  have hlastReturn : last.getLast? ≠ some '\r' :=
    fun heq => absurd (h.plainEnd _ heq) (by decide)
  have hpass : ScanState.empty.passLines (lines ++ [last]) =
      ⟨(ScanState.empty.scanLines (splitLines text)).inline, none⟩ := by
    rw [ScanState.passLines_append, ScanState.passLines, List.foldl_cons, List.foldl_nil,
      ScanState.stripReturn_of_getLast?_ne hlastReturn, ScanState.scanLine, h.fence_eq]
    exact ScanState.scanMarkup_of_ownLine h.plainEnd h.ne_nil h.scanMarkup_eq hown
  rw [ScanState.scanLines_of_isLastLine (h.isLastLine.newline hnewline) hreturn, hpass]
  rfl

end StopsPlain

end LiveMarkdown
