import LiveMarkdown.Proofs.Completion.Boundary
import LiveMarkdown.Proofs.Completion.Idempotence

/-!
# Escaped text

A text in which every character that can be escaped has been escaped holds no markup. Every
character that a line recogniser or an inline step looks for can be escaped, so that on such a text
none of them fires: a line starts with no marker, no heading, no fence and no row, and the inline
scan meets nothing but pairs of a backslash and the character that it takes along.

That a text is escaped is kept by everything that a scan does to a text before it looks at it. A cut
between two lines, behind indentation or in front of white space is a cut at a character that cannot
be escaped, and no such cut separates a pair.

## Main definitions

* `escape`: a backslash in front of every character that can be escaped.
* `IsEscaped`: the texts made of pairs and of characters that cannot be escaped.

## Main results

* `isEscaped_escape`: escaping makes a text escaped.
* `IsEscaped.of_plain_append`, `IsEscaped.of_append_plain`, `IsEscaped.of_mem_splitLines`: the cuts
  that keep a text escaped.
* `IsEscaped.scanMarkup_empty`: an escaped line opens nothing.
* `escape_neutralises`: an escaped text is complete, and completion takes at most insignificant
  white space off it.
-/

namespace LiveMarkdown

variable {c : Char} {cs ds line text : List Char}

/-- The text with a backslash in front of every character that a backslash can escape. -/
def escape (cs : List Char) : List Char :=
  cs.flatMap fun c => if isEscapable c then ['\\', c] else [c]

/-- A text that consists of escaped characters and of characters that cannot be escaped. -/
inductive IsEscaped : List Char → Prop
  | nil : IsEscaped []
  | plain {c : Char} {cs : List Char} (hc : isEscapable c = false) (h : IsEscaped cs) :
      IsEscaped (c :: cs)
  | pair {c : Char} {cs : List Char} (hc : isEscapable c = true) (h : IsEscaped cs) :
      IsEscaped ('\\' :: c :: cs)

theorem isEscaped_escape (cs : List Char) : IsEscaped (escape cs) := by
  induction cs with
  | nil => exact .nil
  | cons c cs ih =>
    rw [escape, List.flatMap_cons]
    split
    · exact .pair ‹_› ih
    · exact .plain (Bool.eq_false_iff.mpr ‹_›) ih

/-! ### Characters that cannot be escaped -/

theorem ne_of_isEscapable_eq_false (hc : isEscapable c = false) {x : Char}
    (hx : isEscapable x = true) : c ≠ x := by
  rintro rfl
  exact Bool.false_ne_true (hc.symm.trans hx)

theorem isEscapable_of_isAsciiWhiteSpace (hc : isAsciiWhiteSpace c = true) :
    isEscapable c = false := by
  simp only [isAsciiWhiteSpace, isAsciiWhiteSpaceCode, Bool.or_eq_true, beq_iff_eq,
    Bool.and_eq_true, decide_eq_true_eq] at hc
  simp only [isEscapable, isEscapableCode, Bool.or_eq_false_iff, Bool.and_eq_false_iff,
    decide_eq_false_iff_not]
  omega

theorem isEscapable_of_isBlankChar (hc : isBlankChar c = true) : isEscapable c = false := by
  simp only [isBlankChar, Bool.or_eq_true, beq_iff_eq, Bool.and_eq_true, decide_eq_true_eq] at hc
  simp only [isEscapable, isEscapableCode, Bool.or_eq_false_iff, Bool.and_eq_false_iff,
    decide_eq_false_iff_not]
  omega

theorem isEscapable_of_isDigit (hc : c.isDigit = true) : isEscapable c = false := by
  have hcode : 48 ≤ c.toNat ∧ c.toNat ≤ 57 := Char.isDigit_iff_toNat.mp hc
  simp only [isEscapable, isEscapableCode, Bool.or_eq_false_iff, Bool.and_eq_false_iff,
    decide_eq_false_iff_not]
  omega

/-- Every delimiter can be escaped. -/
theorem markersOf?_of_isEscapable_eq_false (hc : isEscapable c = false) : markersOf? c = none := by
  unfold markersOf?
  split <;> first | rfl | exact absurd hc (by decide)

/-! ### Cuts of an escaped text -/

namespace IsEscaped

theorem tail_of_plain (h : IsEscaped (c :: cs)) (hc : isEscapable c = false) : IsEscaped cs := by
  cases h with
  | plain _ h => exact h
  | pair => exact absurd hc (by decide)

/-- Behind characters that cannot be escaped a new pair starts. -/
theorem of_plain_append (h : IsEscaped (ds ++ cs)) (hds : ∀ c ∈ ds, isEscapable c = false) :
    IsEscaped cs := by
  induction ds with
  | nil => exact h
  | cons d ds ih =>
    obtain ⟨hd, hds⟩ := List.forall_mem_cons.mp hds
    exact ih (h.tail_of_plain hd) hds

/-- In front of characters that cannot be escaped no pair is half done. -/
theorem of_append_plain (h : IsEscaped (cs ++ ds)) (hds : ∀ c ∈ ds, isEscapable c = false) :
    IsEscaped cs := by
  generalize hwhole : cs ++ ds = whole at h
  induction h generalizing cs with
  | nil =>
    obtain ⟨rfl, -⟩ := List.append_eq_nil_iff.mp hwhole
    exact .nil
  | plain hc h ih =>
    rcases List.append_eq_cons_iff.mp hwhole with ⟨rfl, -⟩ | ⟨front, rfl, rfl⟩
    · exact .nil
    · exact .plain hc (ih rfl)
  | pair hc h ih =>
    rcases List.append_eq_cons_iff.mp hwhole with ⟨rfl, -⟩ | ⟨front, rfl, hrest⟩
    · exact .nil
    rcases List.append_eq_cons_iff.mp hrest.symm with ⟨rfl, rfl⟩ | ⟨front, rfl, rfl⟩
    · -- The cut would stand between a backslash and the character that it takes along.
      exact absurd (hds _ List.mem_cons_self) (by simp [hc])
    · exact .pair hc (ih rfl)

theorem dropWhile (h : IsEscaped cs) {p : Char → Bool}
    (hp : ∀ c, p c = true → isEscapable c = false) :
    IsEscaped (cs.dropWhile p) := by
  rw [← List.takeWhile_append_dropWhile (p := p) (l := cs)] at h
  exact h.of_plain_append fun c hc => hp c (List.mem_takeWhile_imp hc)

theorem dropSpaces (h : IsEscaped cs) (n : Nat) : IsEscaped (dropSpaces n cs) := by
  fun_induction LiveMarkdown.dropSpaces n cs with
  | case1 n cs ih => exact ih (h.tail_of_plain (by decide))
  | case2 => exact h

/-- The lines of an escaped text are escaped. -/
theorem of_mem_splitLines (h : IsEscaped text) (hline : line ∈ splitLines text) :
    IsEscaped line := by
  induction h generalizing line with
  | nil =>
    obtain rfl := List.mem_singleton.mp hline
    exact .nil
  | @plain c cs hc h ih =>
    by_cases hnewline : c = '\n'
    · subst hnewline
      rcases List.mem_cons.mp hline with rfl | hline
      · exact .nil
      · exact ih hline
    · obtain ⟨first, lines, hcs⟩ := List.exists_cons_of_ne_nil (splitLines_ne_nil cs)
      rw [splitLines_cons_of_ne hnewline hcs] at hline
      rw [hcs] at ih
      rcases List.mem_cons.mp hline with rfl | hline
      · exact .plain hc (ih List.mem_cons_self)
      · exact ih (List.mem_cons_of_mem _ hline)
  | @pair c cs hc h ih =>
    have hnewline : c ≠ '\n' := by
      rintro rfl
      exact absurd hc (by decide)
    obtain ⟨first, lines, hcs⟩ := List.exists_cons_of_ne_nil (splitLines_ne_nil cs)
    rw [splitLines_cons_of_ne (by decide) (splitLines_cons_of_ne hnewline hcs)] at hline
    rw [hcs] at ih
    rcases List.mem_cons.mp hline with rfl | hline
    · exact .pair hc (ih List.mem_cons_self)
    · exact ih (List.mem_cons_of_mem _ hline)

theorem stripReturn (h : IsEscaped line) : IsEscaped (ScanState.stripReturn line).1 := by
  unfold ScanState.stripReturn
  split
  · rename_i hlast
    rw [← List.dropLast_append_getLast? '\r' hlast] at h
    exact h.of_append_plain (List.forall_mem_singleton.mpr (by decide))
  · exact h

theorem core_ofText (h : IsEscaped text) : IsEscaped (FragmentParts.ofText text).core := by
  have hcut := FragmentParts.isCut_ofText text
  rw [← FragmentParts.append_ofText text] at h
  exact (h.of_plain_append fun c hc =>
    isEscapable_of_isAsciiWhiteSpace (hcut.leading c hc)).of_append_plain
    fun c hc => isEscapable_of_isAsciiWhiteSpace (hcut.trailing c hc)

/-! ### An escaped line -/

theorem head?_ne (h : IsEscaped cs) {x : Char} (hx : isEscapable x = true) (hbackslash : x ≠ '\\') :
    cs.head? ≠ some x := by
  intro hhead
  cases h with
  | nil => cases hhead
  | plain hc h => exact ne_of_isEscapable_eq_false hc hx (Option.some.inj hhead)
  | pair hc h => exact hbackslash (Option.some.inj hhead).symm

theorem ne_of_cons (h : IsEscaped (c :: cs)) {x : Char} (hx : isEscapable x = true)
    (hbackslash : x ≠ '\\') :
    c ≠ x := by
  rintro rfl
  exact h.head?_ne hx hbackslash rfl

/-- Behind its digits an escaped text has no point and no parenthesis. -/
theorem afterOrdinal?_eq_none (h : IsEscaped cs) : afterOrdinal? cs = none := by
  have hrest : IsEscaped (cs.drop (leadingDigits cs).length) := by
    have hsplit := List.prefix_iff_eq_append.mp (leadingDigits_isInit cs)
    rw [← hsplit] at h
    exact h.of_plain_append fun c hc => isEscapable_of_isDigit (List.mem_takeWhile_imp hc)
  rw [afterOrdinal?_eq]
  split
  · rfl
  · split
    · rename_i heq
      exact absurd (heq ▸ rfl) (hrest.head?_ne (x := '.') (by decide) (by decide))
    · rename_i heq
      exact absurd (heq ▸ rfl) (hrest.head?_ne (x := ')') (by decide) (by decide))
    · rfl

theorem afterListMarker?_eq_none (h : IsEscaped cs) : afterListMarker? cs = none := by
  cases cs with
  | nil => rfl
  | cons c cs =>
    have hbullet : ¬(c = '-' ∨ c = '+' ∨ c = '*') := by
      rintro (hc | hc | hc)
      · exact h.ne_of_cons (by decide) (by decide) hc
      · exact h.ne_of_cons (by decide) (by decide) hc
      · exact h.ne_of_cons (by decide) (by decide) hc
    rw [afterListMarker?_cons, if_neg hbullet, h.afterOrdinal?_eq_none]
    rfl

/-- An escaped line enters no container. -/
theorem containerLead_eq (h : IsEscaped line) : containerLead line = ⟨line, 0, false⟩ := by
  have hcontent := h.dropSpaces 3
  cases hcs : LiveMarkdown.dropSpaces 3 line with
  | nil =>
    rw [containerLead, ContainerLead.read]
    split
    · rename_i heq
      exact absurd (hcs.symm.trans heq) (by simp)
    · rfl
    · rename_i heq
      exact absurd (hcs.symm.trans heq) (by simp)
  | cons c rest =>
    rw [hcs] at hcontent
    exact ContainerLead.read_of_none (hcontent.ne_of_cons (by decide) (by decide)) hcs
      hcontent.afterListMarker?_eq_none

theorem lineContent (h : IsEscaped line) : IsEscaped (lineContent line) := by
  rw [LiveMarkdown.lineContent, h.containerLead_eq]
  exact h.dropSpaces 3

theorem isThematicBreak_eq_false (h : IsEscaped line) : isThematicBreak line = false := by
  have hcontent := h.dropSpaces 3
  unfold isThematicBreak
  split
  · rfl
  · rename_i c rest hcs
    rw [hcs] at hcontent
    have hne : ∀ x, isEscapable x = true → x ≠ '\\' → c ≠ x := fun x => hcontent.ne_of_cons
    simp [hne '*' (by decide) (by decide), hne '-' (by decide) (by decide),
      hne '_' (by decide) (by decide)]

theorem isAtxHeading_eq_false (h : IsEscaped cs) : isAtxHeading cs = false := by
  have hlevel : runLength '#' cs = 0 := by
    cases cs with
    | nil => rfl
    | cons c cs => simp [runLength, h.ne_of_cons (x := '#') (by decide) (by decide)]
  unfold isAtxHeading
  simp only [hlevel]
  rfl

theorem isPipeRow_eq_false (h : IsEscaped line) : isPipeRow line = false := by
  refine Bool.eq_false_iff.mpr fun hrow => ?_
  exact (h.dropWhile fun _ => isEscapable_of_isBlankChar).head?_ne (by decide) (by decide)
    (head?_trimLeft_of_isPipeRow hrow)

theorem openFence?_eq_none (h : IsEscaped cs) (line : List Char) (quoteDepth : Nat) :
    openFence? line cs quoteDepth = none := by
  cases cs with
  | nil => rfl
  | cons c cs =>
    have hmark : FenceMark.ofChar? c = none := by
      rw [FenceMark.ofChar?, if_neg (h.ne_of_cons (by decide) (by decide)),
        if_neg (h.ne_of_cons (by decide) (by decide))]
    simp only [openFence?, hmark]

/-! ### The scan of an escaped text -/

/-- A character that cannot be escaped opens nothing. -/
theorem step_empty_of_plain (hc : isEscapable c = false) (view : InlineLine)
    (before ahead : List Char) :
    InlineState.empty.step view before c ahead = (.empty, 0) := by
  show InlineState.empty.stepMarkup view before c ahead = (.empty, 0)
  unfold InlineState.stepMarkup
  split
  case h_7 => rw [markersOf?_of_isEscapable_eq_false hc]
  all_goals exact absurd hc (by decide)

/-- A pair is passed over in one step. -/
theorem step_empty_of_pair (hc : isEscapable c = true) (view : InlineLine)
    (before ahead : List Char) :
    InlineState.empty.step view before '\\' (c :: ahead) = (.empty, 1) := by
  show InlineState.empty.stepBackslash (c :: ahead) = (.empty, 1)
  rw [InlineState.stepBackslash, List.head?_cons, Option.any_some, if_pos hc]

theorem scan_empty (h : IsEscaped cs) (view : InlineLine) (before : List Char) :
    InlineState.scan view .empty before cs = .empty := by
  induction h generalizing before with
  | nil => exact InlineState.scan_nil _ _ _
  | plain hc h ih =>
    rw [InlineState.scan_cons, step_empty_of_plain hc]
    exact ih _
  | pair hc h ih =>
    rw [InlineState.scan_cons, step_empty_of_pair hc]
    exact ih _

/-- Behind an escaped line nothing is open, since no recogniser knows it. -/
theorem scanMarkup_empty (h : IsEscaped line) (final : Bool) :
    ScanState.empty.scanMarkup line final = .empty := by
  have hstart : ScanState.empty.startOf line = .empty := ite_self _
  rw [ScanState.scanMarkup_eq, h.isThematicBreak_eq_false, h.lineContent.openFence?_eq_none,
    h.lineContent.isAtxHeading_eq_false, h.isPipeRow_eq_false, h.containerLead_eq, hstart,
    h.scan_empty, Bool.or_self, Bool.and_false]
  exact ite_self _

/-- Along escaped lines nothing is open. -/
theorem scanLines_empty {lines : List (List Char)} (h : ∀ line ∈ lines, IsEscaped line) :
    ScanState.empty.scanLines lines = .empty := by
  induction lines with
  | nil => rfl
  | cons line lines ih =>
    obtain ⟨hline, hlines⟩ := List.forall_mem_cons.mp h
    cases lines with
    | nil => exact hline.stripReturn.scanMarkup_empty _
    | cons next more =>
      show (ScanState.empty.scanMarkup (ScanState.stripReturn line).1 false).scanLines
          (next :: more) = .empty
      rw [hline.stripReturn.scanMarkup_empty]
      exact ih hlines

theorem separatorRow?_eq_none (h : IsEscaped text) (lineBreakFollows : Bool) :
    separatorRow? text lineBreakFollows = none := by
  have hlast : IsEscaped ((splitLines text).getLastD []) := by
    rw [List.getLastD_eq_getLast?, List.getLast?_eq_some_getLast (splitLines_ne_nil text)]
    exact h.of_mem_splitLines (List.getLast_mem _)
  rw [separatorRow?, tableSeparatorFor_of_isPipeRow_eq_false hlast.isPipeRow_eq_false]
  exact ite_self none

/-- A scan of an escaped text reports nothing. -/
theorem scanText_eq (h : IsEscaped text) (lineBreakFollows : Bool) :
    scanText text lineBreakFollows = ⟨[], none, [], false⟩ := by
  have hscan := scanLines_empty fun line (hline : line ∈ splitLines text) =>
    h.of_mem_splitLines hline
  rw [scanText_of_separatorRow?_eq_none (congrArg ScanState.fence hscan)
    (h.separatorRow?_eq_none _), hscan]
  rfl

end IsEscaped

/-! ### Completion of an escaped text -/

/-- White space that does not matter for the core behind it is at most three characters long, and
holds neither a line break nor a tab. -/
theorem of_isStructuralLeading_eq_false {leading core : List Char}
    (h : isStructuralLeading leading core = false) :
    leading.length ≤ 3 ∧ ∀ c ∈ leading, c ≠ '\n' ∧ c ≠ '\r' ∧ c ≠ '\t' := by
  rcases Bool.and_eq_false_iff.mp h with hempty | hshape
  · obtain rfl : leading = [] := by simpa using hempty
    exact ⟨Nat.zero_le 3, fun c hc => absurd hc List.not_mem_nil⟩
  · rw [Bool.or_eq_false_iff, Bool.or_eq_false_iff] at hshape
    obtain ⟨⟨hbreaks, hlength⟩, -⟩ := hshape
    refine ⟨Nat.le_of_lt_succ (Nat.lt_of_not_le (of_decide_eq_false hlength)), fun c hc => ?_⟩
    have hbreak := List.any_eq_false.mp hbreaks c hc
    simpa [and_assoc] using hbreak

/-- Completing an escaped text takes white space off its start that does not matter, and changes
nothing else. -/
theorem IsEscaped.exists_append_completed (h : IsEscaped text) :
    ∃ dropped, dropped ++ (completeText text []).completed = text ∧
      isStructuralLeading dropped (FragmentParts.ofText text).core = false ∧
      ∀ c ∈ dropped, isAsciiWhiteSpace c = true := by
  have hnothing : isStructuralLeading [] (FragmentParts.ofText text).core = false := rfl
  by_cases hcore : (FragmentParts.ofText text).core = []
  · exact ⟨[], completed_of_core_eq_nil hcore, hnothing, fun c hc => absurd hc List.not_mem_nil⟩
  have hsuffix : (firstScan text).suffix = [] := by
    rw [firstScan, h.core_ofText.scanText_eq]
  have hcompleted : (completeText text []).completed =
      keptLeading (FragmentParts.ofText text).leading (FragmentParts.ofText text).core ++
        ((FragmentParts.ofText text).core ++ (FragmentParts.ofText text).trailing) := by
    rw [completed_of_core_ne_nil hcore, hsuffix, List.append_nil]
    rfl
  by_cases hkeeps :
    isStructuralLeading (FragmentParts.ofText text).leading (FragmentParts.ofText text).core = true
  · refine ⟨[], ?_, hnothing, fun c hc => absurd hc List.not_mem_nil⟩
    rw [hcompleted, keptLeading, if_pos hkeeps]
    exact FragmentParts.append_ofText text
  · refine ⟨(FragmentParts.ofText text).leading, ?_, Bool.eq_false_iff.mpr hkeeps,
      (FragmentParts.isCut_ofText text).leading⟩
    rw [hcompleted, keptLeading, if_neg hkeeps]
    exact FragmentParts.append_ofText text

/-- Escaping neutralises a text: with or without a line break behind it, a scan reports no open
construct, no fence and nothing to add, and completing the text changes nothing but that up to three
characters of white space at its start, none of them a line break or a tab, may be dropped. -/
theorem escape_neutralises (text : List Char) :
    (∀ lineBreakFollows, scanText (escape text) lineBreakFollows = ⟨[], none, [], false⟩) ∧
      completionSuffix (String.ofList (escape text)) = "" ∧
      ∃ dropped, escape text = dropped ++ (completeFragment (String.ofList (escape text))).toList ∧
        isStructuralLeading dropped (FragmentParts.ofText (escape text)).core = false ∧
        dropped.length ≤ 3 ∧
        ∀ c ∈ dropped, isAsciiWhiteSpace c = true ∧ c ≠ '\n' ∧ c ≠ '\r' ∧ c ≠ '\t' := by
  have hescaped := isEscaped_escape text
  refine ⟨hescaped.scanText_eq, ?_, ?_⟩
  · rw [completionSuffix, String.toList_ofList, suffix_completeText, firstScan,
      hescaped.core_ofText.scanText_eq]
  · obtain ⟨dropped, happend, hstructural, hspace⟩ := hescaped.exists_append_completed
    obtain ⟨hlength, hbreak⟩ := of_isStructuralLeading_eq_false hstructural
    refine ⟨dropped, ?_, hstructural, hlength, fun c hc => ⟨hspace c hc, hbreak c hc⟩⟩
    rw [completeFragment, String.toList_ofList, String.toList_ofList]
    exact happend.symm

/-- The two spaces in front of what would have been a block quote are dropped. -/
example : completeFragment (String.ofList (escape "  > *a\n```".toList)) =
    "\\> \\*a\n\\`\\`\\`" := by cbv

end LiveMarkdown
