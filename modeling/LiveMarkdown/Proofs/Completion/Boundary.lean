import LiveMarkdown.Proofs.Completion.TableHead

/-!
# Block boundaries

A line that is blank, a thematic break, a list item, a heading or the start of a fence is scanned in
the same way whatever the lines before it have left open. If no fence is open there, the scan of a
text therefore starts afresh at such a line, and what stands before it can as well be cut off. Only
the separator row of a table looks back further, to the line before the last one, but no such line
is a table row.

## Main definitions

* `firstLine`: the first line of a text.
* `EndsInline`: the lines that end whatever the lines before them have left open.

## Main results

* `EndsInline.scanMarkup_eq`: the scan of such a line does not depend on what is open.
* `EndsInline.isPipeRow_eq_false`: such a line is no table row.
* `scanText_append_of_endsInline`: a scan is cut at such a line.
-/

namespace LiveMarkdown

variable {line : List Char}

/-- The first line of a text, without its line end. -/
def firstLine (text : List Char) : List Char :=
  (ScanState.stripReturn ((splitLines text).headD [])).1

/-- The lines that end whatever the lines before them have left open. -/
inductive EndsInline (line : List Char) : Prop
  /-- White space alone. -/
  | blank (h : isBlankLine line = true)
  /-- White space alone behind block quote markers. -/
  | blankContent (h : isBlankLine (lineContent line) = true)
  | thematicBreak (h : isThematicBreak line = true)
  | listItem (h : (containerLead line).listItem = true)
  | heading (h : isAtxHeading (lineContent line) = true)
  | fence {f : OpenFence}
      (h : openFence? line (lineContent line) (containerLead line).quoteDepth = some f)

theorem lineContent_suffix (line : List Char) : lineContent line <:+ line :=
  (dropSpaces_suffix 3 _).trans (containerLead_rest_suffix line)

theorem isBlankLine_lineContent (h : isBlankLine line = true) :
    isBlankLine (lineContent line) = true :=
  List.all_eq_true.mpr fun x hx => List.all_eq_true.mp h x ((lineContent_suffix line).subset hx)

/-- Behind a blank line nothing is open. -/
theorem ScanState.scanMarkup_of_isBlankLine (st : ScanState) (h : isBlankLine line = true)
    (final : Bool) :
    st.scanMarkup line final = empty := by
  rw [scanMarkup_eq, if_pos (isBlankLine_lineContent h)]
  exact ite_self empty

/-- The scan of a line that ends inline constructs does not depend on what is open before it. -/
theorem EndsInline.scanMarkup_eq (h : EndsInline line) (st : ScanState) (final : Bool) :
    st.scanMarkup line final = ScanState.empty.scanMarkup line final := by
  have hstart : (containerLead line).listItem = true ∨ isAtxHeading (lineContent line) = true →
      st.startOf line = ScanState.empty.startOf line := by
    intro hreset
    rw [ScanState.startOf, ScanState.startOf, if_pos (Bool.or_eq_true_iff.mpr hreset),
      if_pos (Bool.or_eq_true_iff.mpr hreset)]
  rw [ScanState.scanMarkup_eq, ScanState.scanMarkup_eq]
  cases h with
  | blank h => simp only [isBlankLine_lineContent h, if_true]
  | blankContent h => simp only [h, if_true]
  | thematicBreak h => simp only [h, if_true]
  | listItem h => rw [hstart (Or.inl h)]
  | heading h => rw [hstart (Or.inr h)]
  | fence h => simp only [h]

/-! ### No such line is a table row -/

theorem trimLeft_dropSpaces (n : Nat) (cs : List Char) :
    trimLeft (dropSpaces n cs) = trimLeft cs := by
  fun_induction dropSpaces n cs with
  | case1 n cs ih =>
    exact ih.trans (List.dropWhile_cons_of_pos (isBlankChar_of_ascii (Or.inl rfl))).symm
  | case2 => rfl

section PipeFirst

variable {c : Char} {rest : List Char}

/-- Behind its indentation a line whose ink starts with a pipe starts with a pipe or with a
blank. -/
theorem exists_dropSpaces_eq_of_head?_trimLeft (h : (trimLeft line).head? = some '|') :
    ∃ c rest, dropSpaces 3 line = c :: rest ∧ '|' ∈ c :: rest ∧
      (c = '|' ∨ isBlankChar c = true) := by
  have hdrop : (trimLeft (dropSpaces 3 line)).head? = some '|' := by
    rw [trimLeft_dropSpaces]
    exact h
  cases hcs : dropSpaces 3 line with
  | nil =>
    rw [hcs] at hdrop
    exact absurd hdrop (by decide)
  | cons c rest =>
    rw [hcs] at hdrop
    refine ⟨c, rest, rfl, (List.dropWhile_suffix _).subset (List.mem_of_head? hdrop), ?_⟩
    by_cases hblank : isBlankChar c = true
    · exact Or.inr hblank
    · rw [trimLeft, List.dropWhile_cons_of_neg hblank, List.head?_cons, Option.some.injEq] at hdrop
      exact Or.inl hdrop

theorem ne_of_pipe_or_blank (hc : c = '|' ∨ isBlankChar c = true) {x : Char} (hx : x ≠ '|')
    (hblank : isBlankChar x = false) : c ≠ x := by
  rintro rfl
  rcases hc with rfl | hc
  · exact hx rfl
  · exact absurd (hc.symm.trans hblank) (by decide)

/-- No list marker starts with a pipe or with a blank. -/
theorem afterListMarker?_of_pipe_or_blank (hc : c = '|' ∨ isBlankChar c = true) (rest : List Char) :
    afterListMarker? (c :: rest) = none := by
  have hdigit : c.isDigit = false := by
    refine Bool.eq_false_iff.mpr fun hdigit => ?_
    have halphanum : c.isAlphanum = true := Bool.or_eq_true_iff.mpr (Or.inr hdigit)
    exact ne_of_pipe_or_blank hc (ne_of_isAlphanum halphanum (by decide))
      (isBlankChar_of_isAlphanum halphanum) rfl
  have hordinal : afterOrdinal? (c :: rest) = none := by
    simp [afterOrdinal?, hdigit]
  rw [afterListMarker?_cons, hordinal]
  simp [ne_of_pipe_or_blank hc (x := '-') (by decide) (by decide),
    ne_of_pipe_or_blank hc (x := '+') (by decide) (by decide),
    ne_of_pipe_or_blank hc (x := '*') (by decide) (by decide)]

/-- A line whose ink starts with a pipe is no block boundary. -/
theorem not_endsInline_of_head?_trimLeft (h : (trimLeft line).head? = some '|') :
    ¬EndsInline line := by
  obtain ⟨c, rest, hcs, hpipe, hc⟩ := exists_dropSpaces_eq_of_head?_trimLeft h
  have hne : ∀ x : Char, x ≠ '|' → isBlankChar x = false → c ≠ x := fun x => ne_of_pipe_or_blank hc
  have hlead : containerLead line = ⟨line, 0, false⟩ :=
    ContainerLead.read_of_none (hne '>' (by decide) (by decide)) hcs
      (afterListMarker?_of_pipe_or_blank hc rest)
  have hcontent : lineContent line = c :: rest := by
    rw [lineContent, hlead]
    exact hcs
  have hink : ∀ cs, lineContent line <:+ cs → isBlankLine cs = false :=
    fun cs hcs => List.all_eq_false.mpr ⟨'|', hcs.subset (hcontent ▸ hpipe), by decide⟩
  intro hends
  cases hends with
  | blank h => exact absurd (h.symm.trans (hink _ (lineContent_suffix line))) (by decide)
  | blankContent h => exact absurd (h.symm.trans (hink _ (List.suffix_refl _))) (by decide)
  | thematicBreak h =>
    simp [isThematicBreak, hcs, hne '*' (by decide) (by decide), hne '-' (by decide) (by decide),
      hne '_' (by decide) (by decide)] at h
  | listItem h =>
    rw [hlead] at h
    exact absurd h Bool.false_ne_true
  | heading h => simp [hcontent, isAtxHeading, runLength, hne '#' (by decide) (by decide)] at h
  | fence h =>
    have hmark : FenceMark.ofChar? c = none := by
      rw [FenceMark.ofChar?, if_neg (hne '`' (by decide) (by decide)),
        if_neg (hne '~' (by decide) (by decide))]
    rw [hcontent] at h
    simp [openFence?, hmark] at h

end PipeFirst

theorem head?_trimLeft_stripReturn {c : Char} (h : (trimLeft line).head? = some c) :
    (trimLeft (ScanState.stripReturn line).1).head? = some c := by
  unfold ScanState.stripReturn
  split
  · rename_i hlast
    rw [← List.dropLast_append_getLast? '\r' hlast, trimLeft, List.dropWhile_append] at h
    split at h
    · exact absurd h (by simp [isBlankChar_of_ascii])
    · rename_i hne
      rwa [head?_append_of_ne_nil (by simpa using hne)] at h
  · exact h

theorem head?_trimLeft_of_isPipeRow (h : isPipeRow line = true) :
    (trimLeft line).head? = some '|' := by
  have htrim := head?_trim_of_isPipeRow h
  have hprefix : trim line <+: trimLeft line := by
    have hsuffix := List.dropWhile_suffix (l := (trimLeft line).reverse) isBlankChar
    rw [← List.reverse_prefix, List.reverse_reverse] at hsuffix
    exact hsuffix
  obtain ⟨rest, hrest⟩ := hprefix
  have hne : trim line ≠ [] := by
    rintro hnil
    rw [hnil] at htrim
    exact absurd htrim (by simp)
  rw [← hrest, head?_append_of_ne_nil hne]
  exact htrim

/-- A line that ends inline constructs is no table row. -/
theorem EndsInline.isPipeRow_eq_false (h : EndsInline (ScanState.stripReturn line).1) :
    isPipeRow line = false := by
  refine Bool.eq_false_iff.mpr fun hrow => ?_
  exact not_endsInline_of_head?_trimLeft
    (head?_trimLeft_stripReturn (head?_trimLeft_of_isPipeRow hrow)) h

theorem tableSeparatorFor_of_isPipeRow_eq_false (h : isPipeRow line = false)
    (previous : Option (List Char)) : tableSeparatorFor line previous = none := by
  simp [tableSeparatorFor, h]

/-! ### The cut -/

/-- An empty line belongs to the body of a fence, also at the end of the text. -/
theorem OpenFence.step_nil (f : OpenFence) (final : Bool) :
    f.step [] final = some { f with hasBody := true } := by
  have hinner : dropQuoteMarkers f.quoteDepth [] = [] :=
    List.suffix_nil.mp (dropQuoteMarkers_suffix f.quoteDepth [])
  simp [OpenFence.step, hinner, runLength]

namespace ScanState

theorem fence_of_scanLines_nil {st : ScanState} (h : (st.scanLines [[]]).fence = none) :
    st.fence = none := by
  rw [scanLines, scanLine] at h
  split at h
  · rename_i f hf
    exact absurd ((f.step_nil _).symm.trans h) (by simp)
  · assumption

theorem scanLines_cons_of_endsInline {st : ScanState} (hfence : st.fence = none)
    (h : EndsInline (stripReturn line).1) (lines : List (List Char)) :
    st.scanLines (line :: lines) = empty.scanLines (line :: lines) := by
  have hline : ∀ final,
      st.scanLine (stripReturn line).1 final = empty.scanLine (stripReturn line).1 final := by
    intro final
    rw [scanLine, hfence]
    exact h.scanMarkup_eq st final
  cases lines with
  | nil => exact hline _
  | cons next more =>
    change (st.scanLine _ false).scanLines (next :: more) =
        (empty.scanLine _ false).scanLines (next :: more)
    rw [hline]

end ScanState

theorem scanText_congr {text text' : List Char} {lineBreakFollows : Bool}
    (hscan : ScanState.empty.scanLines (splitLines text) =
      ScanState.empty.scanLines (splitLines text'))
    (hrow : separatorRow? text lineBreakFollows = separatorRow? text' lineBreakFollows) :
    scanText text lineBreakFollows = scanText text' lineBreakFollows := by
  rw [separatorRow?, separatorRow?] at hrow
  simp only [scanText, hscan, hrow]

/-- What stands before a block boundary outside fences has no part in the scan of what follows. -/
theorem scanText_append_of_endsInline {a b : List Char}
    (hfence : (scanText (a ++ ['\n']) false).fence = none) (hb : EndsInline (firstLine b))
    (lineBreakFollows : Bool) :
    scanText (a ++ '\n' :: b) lineBreakFollows = scanText b lineBreakFollows := by
  obtain ⟨first, more, hlines⟩ := List.exists_cons_of_ne_nil (splitLines_ne_nil b)
  rw [firstLine, hlines, List.headD_cons] at hb
  have hopen : (ScanState.empty.passLines (splitLines a)).fence = none := by
    rw [fence_scanText, splitLines_append_newline,
      ScanState.scanLines_append _ _ (splitLines_ne_nil [])] at hfence
    exact ScanState.fence_of_scanLines_nil hfence
  refine scanText_congr ?_ ?_
  · rw [splitLines_append_newline, ScanState.scanLines_append _ _ (splitLines_ne_nil b), hlines]
    exact ScanState.scanLines_cons_of_endsInline hopen hb more
  · rw [separatorRow?, separatorRow?, splitLines_append_newline, hlines]
    cases more with
    | nil =>
      -- The first line is the last one too, and no table row.
      rw [List.getLastD_concat, List.getLastD_cons, List.getLastD_nil,
        tableSeparatorFor_of_isPipeRow_eq_false hb.isPipeRow_eq_false,
        tableSeparatorFor_of_isPipeRow_eq_false hb.isPipeRow_eq_false]
    | cons next more =>
      have hlast : (splitLines a ++ first :: next :: more).getLastD [] =
          (first :: next :: more).getLastD [] := by
        rw [List.getLastD_eq_getLast?, List.getLastD_eq_getLast?,
          List.getLast?_append_of_ne_nil _ (List.cons_ne_nil _ _)]
      have hprevious : (splitLines a ++ first :: next :: more).dropLast.getLast? =
          (first :: next :: more).dropLast.getLast? := by
        rw [List.dropLast_append_of_ne_nil (List.cons_ne_nil _ _),
          List.getLast?_append_of_ne_nil _ (by simp)]
      rw [hlast, hprevious]

/-- A list item in a block quote cuts off emphasis, a code span, a label and a formula. -/
theorem scanText_cut_at_list_item :
    (scanText ("*a `b\n[c $d".toList ++ ['\n']) false).fence = none ∧
      EndsInline (firstLine "> 1. **e\nf ![g".toList) ∧
      scanText ("*a `b\n[c $d".toList ++ '\n' :: "> 1. **e\nf ![g".toList) true =
        ⟨[.delimiter .doubleStar, .linkLabel true false], none,
          "](mdex:incomplete-link)**".toList, false⟩ := by
  have hfence : (scanText ("*a `b\n[c $d".toList ++ ['\n']) false).fence = none := by cbv
  have hends : EndsInline (firstLine "> 1. **e\nf ![g".toList) := .listItem (by cbv)
  refine ⟨hfence, hends, ?_⟩
  rw [scanText_append_of_endsInline hfence hends true]
  cbv

end LiveMarkdown
