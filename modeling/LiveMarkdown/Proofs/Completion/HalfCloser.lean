import LiveMarkdown.Proofs.Completion.Boundary
import LiveMarkdown.Proofs.Completion.Idempotence

/-!
# Closers that are half there

A text that has begun to close its innermost marker is completed by the rest of the closer, so that
the completion does not change while a closer arrives. Behind a letter or a digit this holds of
asterisks, underscores and tildes: one character closes a single marker and begins to close a double
one, and what is left to add is what was to be added before, without its first character. It does
not hold of `++` and `==`. A run of one of these characters is no delimiter run, so that it is taken
for text.

What a completion adds is found in the core of the fragment. White space in front of the core can
make the text as a whole leave something else open than the core does: a number sign behind a tab
starts no heading.

## Main results

* `InlineState.scan_half_closer`: what one character of the innermost marker does at the end of a
  text.
* `suffix_scanText_concat_of_marker`: what is then left to close.
* `completed_concat_eq_iff`: when one character more does not change a completion.
* `completeFragment_push_iff`: which closers are extended.
-/

namespace LiveMarkdown

variable {c : Char} {marker : Marker} {stack below : List OpenConstruct}

/-! ### One character of a closer -/

theorem Marker.text_eq_cons (marker : Marker) :
    marker.text = marker.char :: List.replicate (marker.length - 1) marker.char := by
  cases marker <;> rfl

theorem countsAsRun_one_iff (hpair : marker.length = 2) :
    countsAsRun marker.char 1 = true ↔ marker ∈ [.doubleStar, .doubleUnderscore, .doubleTilde] := by
  cases marker <;> first | decide | exact absurd hpair (by decide)

/-- At the end of a text, one character closes the innermost marker or begins to close it. -/
theorem closeRun_one (marker : Marker) (below : List OpenConstruct) :
    closeRun marker.char true (.delimiter marker :: below) 1 = ⟨below, 0, marker.length - 1⟩ := by
  cases marker <;> simp [closeRun, findOpener?, Marker.length]

theorem InlineState.scan_half_closer {view : InlineLine} {st : InlineState} {before : List Char}
    (hfinal : view.final = true) (hstack : st.stack = .delimiter marker :: below)
    (hpartial : st.partialCloser = []) (hbefore : CharClass.ofChar? before.head? ≠ .whiteSpace) :
    scan view st before [marker.char] =
      if countsAsRun marker.char 1 then
        { st with stack := below, partialCloser := List.replicate (marker.length - 1) marker.char }
      else st := by
  obtain ⟨single, double, hmarkers, hsingle, hstep⟩ := exists_markersOf?_char marker
  have hliteral : ∀ x ∈ st.stack.head?, x.isLiteral = false := by
    simp [hstack, OpenConstruct.isLiteral]
  have hcanClose : single.delimiter.canClose (CharClass.ofChar? before.head?)
      (CharClass.ofChar? ([] : List Char).head?) = true :=
        canClose_of_classes hbefore (.inl rfl) single
  have hclosing : runClosing single true st.stack (CharClass.ofChar? before.head?)
      (CharClass.ofChar? ([] : List Char).head?) 1 = ⟨below, 0, marker.length - 1⟩ := by
    rw [runClosing, if_pos hcanClose, hsingle, hstack, closeRun_one]
  have hrun : runLength marker.char [] + 1 = 1 := rfl
  rw [scan_cons, step_eq_stepMarkup view hliteral, hstep, stepDelimiters_eq view st before hmarkers,
    List.drop_nil, scan_nil]
  simp only [hrun, hfinal, List.isEmpty_nil, Bool.and_self, hclosing, hpartial]
  split
  · congr 1
    exact ite_eq_right_iff.mpr fun hzero => by rw [hzero, List.replicate_zero]
  · rfl

/-! ### The first character of a suffix -/

/-- Only markers are closed with the characters of markers. -/
theorem OpenConstruct.exists_marker_of_mem_closer {x : OpenConstruct} (h : marker.char ∈ x.closer) :
    ∃ m, x = .delimiter m ∧ m.char = marker.char := by
  cases x with
  | delimiter m => exact ⟨m, rfl, (List.eq_of_mem_replicate h).symm⟩
  | codeSpan run => cases marker <;> exact absurd (List.eq_of_mem_replicate h) (by decide)
  | math display ownLine =>
    cases display <;> cases ownLine <;> cases marker <;> exact absurd h (by decide)
  | linkLabel image footnote =>
    cases image <;> cases footnote <;> cases marker <;> exact absurd h (by decide)
  | linkDestination depth => cases marker <;> exact absurd (List.eq_of_mem_replicate h) (by decide)

theorem exists_marker_of_head?_closersOf (hsound : ∀ x ∈ stack, x.IsSound)
    (h : (closersOf stack).head? = some marker.char) :
    ∃ m below, stack = .delimiter m :: below ∧ m.char = marker.char := by
  cases stack with
  | nil => cases h
  | cons x below =>
    rw [closersOf_cons,
      head?_append_of_ne_nil (OpenConstruct.closer_ne_nil (hsound x List.mem_cons_self))] at h
    obtain ⟨m, rfl, hchar⟩ := OpenConstruct.exists_marker_of_mem_closer (List.mem_of_head? h)
    exact ⟨m, below, rfl, hchar⟩

/-! ### The scan of a text with one character more -/

section Scan

variable {text : List Char} {lineBreakFollows : Bool}

/-- Behind a letter or a digit nothing is cut short, and the suffix is the closers of what is
open. -/
theorem scanText_eq_closersOf_of_getLast? (hlast : text.getLast? = some c)
    (hc : c.isAlphanum = true) (hfence : (scanText text lineBreakFollows).fence = none) :
    (scanText text lineBreakFollows).openConstructs =
        (ScanState.empty.scanLines (splitLines text)).inline.stack.reverse ∧
      (scanText text lineBreakFollows).suffix =
        closersOf (ScanState.empty.scanLines (splitLines text)).inline.stack := by
  have hrow :=
    separatorRow?_of_getLast? hlast (isBlankChar_of_isAlphanum hc) (ne_of_isAlphanum hc (by decide))
    lineBreakFollows
  rw [fence_scanText] at hfence
  obtain ⟨lines, last, hstops⟩ := exists_stopsPlain hlast hc hfence
  rw [scanText_of_separatorRow?_eq_none hfence hrow, hstops.isQuiet.suffix_eq]
  exact ⟨rfl, rfl⟩

/-- A line that ends in a letter or a digit does not begin to close a fence. -/
theorem OpenFence.partialClose_of_step {f g : OpenFence} {line : List Char} {final : Bool}
    (hplain : PlainEnd line) (h : f.step line final = some g) :
    g.partialClose = f.partialClose := by
  rcases OpenFence.eq_of_step_eq_some h with rfl | ⟨-, run, hrun, -, -, hbody, -⟩
  · rfl
  · have hsuffix : List.replicate run f.mark.char <:+ line :=
      hbody ▸ (List.dropWhile_suffix _).trans (dropQuoteMarkers_suffix _ _)
    have hlast : (List.replicate run f.mark.char).getLast? = some f.mark.char := by
      rw [List.getLast?_replicate, if_neg (Nat.ne_of_gt hrun)]
    have hmark := hplain.of_suffix hsuffix _ hlast
    cases hf : f.mark <;> rw [hf] at hmark <;> exact absurd hmark (by decide)

/-- Behind a letter or a digit, a closing line is due for a fence, or nothing. -/
theorem head?_suffix_of_fence {f : OpenFence} (hlast : text.getLast? = some c)
    (hc : c.isAlphanum = true) (hfence : (scanText text lineBreakFollows).fence = some f) :
    ∀ x ∈ (scanText text lineBreakFollows).suffix.head?, x = '\n' := by
  rw [fence_scanText] at hfence
  obtain ⟨lines, last, hisLast⟩ := exists_isLastLine text
  have hzero : f.partialClose = 0 := by
    have hlastC : last.getLast? = some c :=
      hisLast.getLast?_eq (ne_of_isAlphanum hc (by decide)) hlast
    have hplain : PlainEnd last := plainEnd_of_getLast? hlastC hc
    have hreturn : last.getLast? ≠ some '\r' := fun heq => absurd (hplain _ heq) (by decide)
    have hscan := hfence
    rw [ScanState.scanLines_of_isLastLine hisLast hreturn, ScanState.scanLine] at hscan
    split at hscan
    · rename_i g hg
      rw [OpenFence.partialClose_of_step hplain hscan]
      exact ScanState.partialClose_passLines (fun _ hg => absurd hg ScanState.fence_empty_ne_some)
        hg
    · exact (ScanState.of_fence_scanMarkup hscan).2
  rw [scanText_of_fence_eq_some hfence, OpenFence.closer, if_neg (by omega)]
  split <;> simp

/-- If the first character of a suffix is that of a marker, such a marker is innermost. -/
theorem exists_marker_of_head?_suffix (hlast : text.getLast? = some c) (hc : c.isAlphanum = true)
    (hhead : (scanText text lineBreakFollows).suffix.head? = some marker.char) :
    ∃ m, (scanText text lineBreakFollows).openConstructs.getLast? = some (.delimiter m) ∧
      m.char = marker.char := by
  cases hfence : (scanText text lineBreakFollows).fence with
  | some f =>
    have hnewline := head?_suffix_of_fence hlast hc hfence _ hhead
    cases marker <;> exact absurd hnewline (by decide)
  | none =>
    obtain ⟨hopen, hsuffix⟩ := scanText_eq_closersOf_of_getLast? hlast hc hfence
    rw [hsuffix] at hhead
    obtain ⟨m, below, hstack, hchar⟩ :=
      exists_marker_of_head?_closersOf (ScanState.isReached_scanLines text).inline.nested.isSound
        hhead
    refine ⟨m, ?_, hchar⟩
    rw [hopen, hstack, List.getLast?_reverse]
    rfl

/-- One character of the innermost marker takes the first character off what is to be closed, or is
text. -/
theorem suffix_scanText_concat_of_marker (hlast : text.getLast? = some c) (hc : c.isAlphanum = true)
    (hopen : (scanText text lineBreakFollows).openConstructs.getLast? = some (.delimiter marker)) :
    ∃ rest, (scanText text lineBreakFollows).suffix = marker.char :: rest ∧
      ∀ b, (scanText (text ++ [marker.char]) b).suffix =
        if countsAsRun marker.char 1 then rest else marker.char :: rest := by
  have hfence : (scanText text lineBreakFollows).fence = none := by
    cases hfence : (scanText text lineBreakFollows).fence with
    | none => rfl
    | some f =>
      rw [fence_scanText] at hfence
      rw [scanText_of_fence_eq_some hfence] at hopen
      cases hopen
  obtain ⟨hconstructs, hsuffix⟩ := scanText_eq_closersOf_of_getLast? hlast hc hfence
  rw [fence_scanText] at hfence
  obtain ⟨lines, last, hstops⟩ := exists_stopsPlain hlast hc hfence
  rw [hconstructs, List.getLast?_reverse] at hopen
  obtain ⟨below, hstack⟩ := List.head?_eq_some_iff.mp hopen
  have hnext : marker.char ≠ '\n' ∧ marker.char ≠ '\r' ∧ marker.char.isDigit = false ∧
      marker.char ≠ '.' ∧
      marker.char ≠ ')' ∧ ([marker.char].dropWhile isShortcodeChar).head? ≠ some ':' ∧
      isBlankChar marker.char = false ∧ marker.char ≠ '|' := by
    cases marker <;> decide
  obtain ⟨hnewline, hreturn, hdigit, hpoint, hparen, hcolon, hblank, hpipe⟩ := hnext
  refine ⟨List.replicate (marker.length - 1) marker.char ++ closersOf below, ?_, fun b => ?_⟩
  · rw [hsuffix, hstack, closersOf_cons, OpenConstruct.closer, marker.text_eq_cons,
      List.cons_append]
  · rcases hstops.scanLines_append (by rw [hstack]; exact List.cons_ne_nil _ _)
        (show '\n' ∉ [marker.char] by simpa using hnewline.symm) (by simpa using hreturn)
        (by simpa using hdigit) hcolon with
      ⟨view, before, hfinal, hbefore, hscan⟩ | ⟨rest, hmore | hmore, -⟩
    · have hclass : CharClass.ofChar? before.head? ≠ .whiteSpace := by
        rw [hbefore, hlast]
        exact ofChar?_of_isAlphanum hc
      have hrow : separatorRow? (text ++ [marker.char]) b = none :=
        separatorRow?_of_getLast? List.getLast?_concat hblank hpipe b
      rw [InlineState.scan_half_closer hfinal hstack hstops.isQuiet.1 hclass] at hscan
      rw [scanText_of_separatorRow?_eq_none (congrArg ScanState.fence hscan) hrow, hscan]
      split
      · simp [InlineState.suffix, hstops.isQuiet.2, closersOf]
      · rw [hstops.isQuiet.suffix_eq, hstack, closersOf_cons, OpenConstruct.closer,
          marker.text_eq_cons, List.cons_append]
    · exact absurd (List.cons.inj hmore).1 hpoint
    · exact absurd (List.cons.inj hmore).1 hparen

end Scan

/-! ### The completion of a text with one character more -/

section Completion

variable {text : List Char} {x : Char} (hlast : text.getLast? = some c) (hc : c.isAlphanum = true)

include hlast hc

/-- A text that ends in a letter or a digit has no white space behind its core. -/
theorem trailing_ofText_of_getLast? :
    (FragmentParts.ofText text).trailing = [] ∧
      (FragmentParts.ofText text).core.getLast? = some c := by
  have hcut := FragmentParts.isCut_ofText text
  have hink : isAsciiWhiteSpace c = false := isAsciiWhiteSpace_of_isAlphanum hc
  rw [← FragmentParts.append_ofText text, List.getLast?_append, List.getLast?_append,
    Option.or_assoc] at hlast
  rcases Option.or_eq_some_iff.mp hlast with htrailing | ⟨htrailing, hlast⟩
  · exact absurd ((hcut.trailing c (List.mem_of_getLast? htrailing)).symm.trans hink) (by decide)
  · refine ⟨List.getLast?_eq_none_iff.mp htrailing, ?_⟩
    rcases Option.or_eq_some_iff.mp hlast with hcore | ⟨-, hleading⟩
    · exact hcore
    · exact absurd ((hcut.leading c (List.mem_of_getLast? hleading)).symm.trans hink) (by decide)

theorem firstScan_of_getLast? :
    firstScan text = scanText (FragmentParts.ofText text).core false := by
  rw [firstScan, (trailing_ofText_of_getLast? hlast hc).1]
  rfl

/-- A character behind the text goes behind its core. -/
theorem ofText_concat (hx : isAsciiWhiteSpace x = false) :
    FragmentParts.ofText (text ++ [x]) =
      ⟨(FragmentParts.ofText text).leading, (FragmentParts.ofText text).core ++ [x], []⟩ := by
  obtain ⟨htrailing, hcore⟩ := trailing_ofText_of_getLast? hlast hc
  have hcut := FragmentParts.isCut_ofText text
  have hsplit := FragmentParts.append_ofText text
  rw [htrailing, List.append_nil] at hsplit
  have hcutMore : FragmentParts.IsCut
      ⟨(FragmentParts.ofText text).leading, (FragmentParts.ofText text).core ++ [x], []⟩ := by
    refine ⟨hcut.leading, fun y hy => absurd hy List.not_mem_nil, fun y hy => ?_, fun y hy => ?_⟩
    · rw [head?_append_of_ne_nil (List.ne_nil_of_mem (List.mem_of_getLast? hcore))] at hy
      exact hcut.head y hy
    · rw [List.getLast?_concat] at hy
      exact Option.some.inj hy ▸ hx
  have hofText := hcutMore.ofText_eq (by simp)
  rw [List.append_nil, ← List.append_assoc, hsplit] at hofText
  exact hofText

/-- The white space in front of the core matters with the character behind it as it does without. -/
theorem keptLeading_concat (leading : List Char) (hdigit : x.isDigit = false) (hpoint : x ≠ '.')
    (hparen : x ≠ ')') : keptLeading leading (text ++ [x]) = keptLeading leading text := by
  have hne : text ≠ [] := List.ne_nil_of_mem (List.mem_of_getLast? hlast)
  have hplain : PlainEnd text := plainEnd_of_getLast? hlast hc
  have hnext : ∀ y ∈ [x].head?, y.isDigit = false := by simpa using hdigit
  have hmarker : (afterListMarker? (text ++ [x])).isSome = (afterListMarker? text).isSome := by
    cases hmarker : afterListMarker? text with
    | some rest =>
      have hrest : rest ≠ [] := by
        rintro rfl
        obtain ⟨digits, y, rfl, -, hy⟩ := exists_eq_append_of_loneMarker hmarker
        rw [List.getLast?_concat, Option.some.injEq] at hlast
        rw [hlast] at hy
        simp only [List.mem_cons, List.not_mem_nil, or_false] at hy
        rcases hy with rfl | rfl | rfl | rfl | rfl <;> exact absurd hc (by decide)
      rw [afterListMarker?_append_of_some hmarker hrest]
      rfl
    | none =>
      rcases afterListMarker?_append_of_none hmarker hplain hne hnext with
        hnone | ⟨rest, hmore | hmore, -⟩
      · rw [hnone]
      · exact absurd (List.cons.inj hmore).1 hpoint
      · exact absurd (List.cons.inj hmore).1 hparen
  rw [keptLeading, keptLeading, isStructuralLeading, isStructuralLeading, hmarker]

/-- A character more does not change the completion exactly if it is the first one that the
completion adds. -/
theorem completed_concat_eq_iff (hx : isAsciiWhiteSpace x = false) (hdigit : x.isDigit = false)
    (hpoint : x ≠ '.') (hparen : x ≠ ')') :
    (completeText (text ++ [x]) []).completed = (completeText text []).completed ↔
      (firstScan text).suffix = x :: (firstScan (text ++ [x])).suffix := by
  obtain ⟨htrailing, hcore⟩ := trailing_ofText_of_getLast? hlast hc
  have hofText := ofText_concat hlast hc hx
  have hne : (FragmentParts.ofText text).core ≠ [] :=
    List.ne_nil_of_mem (List.mem_of_getLast? hcore)
  have hneMore : (FragmentParts.ofText (text ++ [x])).core ≠ [] := by simp [hofText]
  have hkept : ∀ suffix, keptTrailing suffix [] = [] :=
    fun suffix => List.suffix_nil.mp (keptTrailing_suffix suffix [])
  rw [completed_of_core_ne_nil hne, completed_of_core_ne_nil hneMore, hofText, htrailing,
    hkept, hkept, keptLeading_concat hcore hc _ hdigit hpoint hparen]
  simp [eq_comm]

end Completion

/-! ### White space in front of the core -/

/-- Blank lines leave nothing open. -/
theorem ScanState.passLines_of_isBlankLine {lines : List (List Char)}
    (h : ∀ line ∈ lines, isBlankLine line = true) :
    ScanState.empty.passLines lines = .empty := by
  induction lines with
  | nil => rfl
  | cons line lines ih =>
    obtain ⟨hline, hlines⟩ := List.forall_mem_cons.mp h
    have hblank : isBlankLine (stripReturn line).1 = true :=
      List.all_eq_true.mpr fun x hx => List.all_eq_true.mp hline x (stripReturn_subset line hx)
    change (ScanState.empty.scanMarkup (stripReturn line).1 false).passLines lines = .empty
    rw [scanMarkup_of_isBlankLine .empty hblank]
    exact ih hlines

/-- Without white space in front, or behind blank lines, a core leaves open what the text does. -/
theorem scanText_core_of_leading {text : List Char}
    (htrailing : (FragmentParts.ofText text).trailing = [])
    (hleading : (FragmentParts.ofText text).leading = [] ∨
      (FragmentParts.ofText text).leading.getLast? = some '\n') :
    scanText (FragmentParts.ofText text).core false = scanText text false := by
  have hsplit := FragmentParts.append_ofText text
  rw [htrailing, List.append_nil] at hsplit
  rcases hleading with hnil | hnewline
  · rw [hnil, List.nil_append] at hsplit
    rw [hsplit]
  · obtain ⟨front, hfront⟩ := List.getLast?_eq_some_iff.mp hnewline
    have hblank : ∀ line ∈ splitLines front, isBlankLine line = true := by
      intro line hline
      refine List.all_eq_true.mpr fun x hx => (FragmentParts.isCut_ofText text).leading x ?_
      rw [hfront]
      exact List.mem_append_left _ (subset_of_mem_splitLines hline hx)
    have htext : text = front ++ '\n' :: (FragmentParts.ofText text).core := by
      rw [hfront, List.append_assoc, List.singleton_append] at hsplit
      exact hsplit.symm
    refine scanText_congr ?_ rfl
    conv_rhs => rw [htext]
    rw [splitLines_append_newline, ScanState.scanLines_append _ _ (splitLines_ne_nil _),
      ScanState.passLines_of_isBlankLine hblank]

/-! ### Fragments -/

/-- One character of a marker does not change a completion exactly if it counts as a run, and the
core has a marker of that character innermost. -/
theorem completed_concat_marker_iff {text : List Char} (hlast : text.getLast? = some c)
    (hc : c.isAlphanum = true) (marker : Marker) :
    (completeText (text ++ [marker.char]) []).completed = (completeText text []).completed ↔
      countsAsRun marker.char 1 = true ∧
        ∃ m, (firstScan text).openConstructs.getLast? = some (.delimiter m) ∧
          m.char = marker.char := by
  have hchar : isAsciiWhiteSpace marker.char = false ∧ marker.char.isDigit = false ∧
      marker.char ≠ '.' ∧ marker.char ≠ ')' := by
    cases marker <;> decide
  have hcore := (trailing_ofText_of_getLast? hlast hc).2
  have hmore : firstScan (text ++ [marker.char]) =
      scanText ((FragmentParts.ofText text).core ++ [marker.char]) false := by
    rw [firstScan, ofText_concat hlast hc hchar.1]
    rfl
  rw [completed_concat_eq_iff hlast hc hchar.1 hchar.2.1 hchar.2.2.1 hchar.2.2.2, hmore,
    firstScan_of_getLast? hlast hc]
  constructor
  · intro hsuffix
    obtain ⟨m, hopen, hm⟩ := exists_marker_of_head?_suffix hcore hc (by rw [hsuffix]; rfl)
    obtain ⟨rest, hrest, hconcat⟩ := suffix_scanText_concat_of_marker hcore hc hopen
    rw [hm] at hrest hconcat
    refine ⟨?_, m, hopen, hm⟩
    by_contra hcounts
    rw [hconcat, if_neg hcounts, hrest] at hsuffix
    exact absurd (congrArg List.length hsuffix) (by simp)
  · rintro ⟨hcounts, m, hopen, hm⟩
    obtain ⟨rest, hrest, hconcat⟩ := suffix_scanText_concat_of_marker hcore hc hopen
    rw [hm] at hrest hconcat
    rw [hrest, hconcat, if_pos hcounts]

/-- Behind a letter or a digit, a character of the innermost marker does not change the completion
of a fragment exactly if the marker is none of the pairs `++` and `==`, and the core of the fragment
has a marker of that character innermost as well. It has the same one innermost if the fragment
starts with its core or behind blank lines. -/
theorem completeFragment_push_iff (text : String) {c : Char} {marker : Marker}
    (hlast : text.toList.getLast? = some c) (hc : c.isAlphanum = true)
    (hopen : (scanText text.toList false).openConstructs.getLast? = some (.delimiter marker))
    (hpair : marker.length = 2) :
    (completeFragment (text.push marker.char) = completeFragment text ↔
        marker ∈ [.doubleStar, .doubleUnderscore, .doubleTilde] ∧
          ∃ m, (firstScan text.toList).openConstructs.getLast? = some (.delimiter m) ∧
            m.char = marker.char) ∧
      ((FragmentParts.ofText text.toList).leading = [] ∨
          (FragmentParts.ofText text.toList).leading.getLast? = some '\n' →
        (completeFragment (text.push marker.char) = completeFragment text ↔
          marker ∈ [.doubleStar, .doubleUnderscore, .doubleTilde])) := by
  have hiff : completeFragment (text.push marker.char) = completeFragment text ↔
      marker ∈ [.doubleStar, .doubleUnderscore, .doubleTilde] ∧
        ∃ m, (firstScan text.toList).openConstructs.getLast? = some (.delimiter m) ∧
          m.char = marker.char := by
    rw [completeFragment, completeFragment, String.ofList_inj, String.toList_push,
      completed_concat_marker_iff hlast hc, countsAsRun_one_iff hpair]
  refine ⟨hiff, fun hleading => hiff.trans (and_iff_left ⟨marker, ?_, rfl⟩)⟩
  rw [firstScan_of_getLast? hlast hc,
    scanText_core_of_leading (trailing_ofText_of_getLast? hlast hc).1 hleading]
  exact hopen

/-- Half of the closer of a marker in a list item, behind an empty line. -/
theorem completeFragment_push_iff_in_list_item :
    "\n- _a **b".toList.getLast? = some 'b' ∧ Char.isAlphanum 'b' = true ∧
      (scanText "\n- _a **b".toList false).openConstructs.getLast? = some (.delimiter .doubleStar) ∧
      Marker.length .doubleStar = 2 ∧ completeFragment "\n- _a **b" = "\n- _a **b**_" ∧
      completeFragment ("\n- _a **b".push '*') = "\n- _a **b**_" := by
  have hlast : "\n- _a **b".toList.getLast? = some 'b' := by decide
  have hopen : (scanText "\n- _a **b".toList false).openConstructs.getLast? =
      some (.delimiter .doubleStar) := by cbv
  have honce : completeFragment "\n- _a **b" = "\n- _a **b**_" := by cbv
  have hleading : (FragmentParts.ofText "\n- _a **b".toList).leading.getLast? = some '\n' := by
    decide
  refine ⟨hlast, by decide, hopen, rfl, honce, ?_⟩
  rw [← honce]
  exact ((completeFragment_push_iff "\n- _a **b" hlast (by decide) hopen rfl).2 (.inr hleading)).mpr
    (by decide)

/-- A plus sign behind a word in `++` is taken for text, and so is an asterisk where a tab hides
that the first line of the core is a heading. -/
theorem not_completeFragment_push_of_plus :
    completeFragment "++a" = "++a++" ∧ completeFragment "++a+" = "++a+++" ∧
      (scanText "\t# **a\nb".toList false).openConstructs = [.delimiter .doubleStar] ∧
      completeFragment "\t# **a\nb" = "\t# **a\nb" ∧
      completeFragment "\t# **a\nb*" = "\t# **a\nb*" ∧
      ¬∀ (text : String) (c : Char) (marker : Marker), text.toList.getLast? = some c →
      c.isAlphanum = true →
        (scanText text.toList false).openConstructs.getLast? = some (.delimiter marker) →
        marker.length = 2 → completeFragment (text.push marker.char) = completeFragment text := by
  have honce : completeFragment "++a" = "++a++" := by cbv
  have hmore : completeFragment "++a+" = "++a+++" := by cbv
  refine ⟨honce, hmore, by cbv, by cbv, by cbv, fun h => ?_⟩
  have heq := h "++a" 'a' .doublePlus (by decide) (by decide) (by cbv) rfl
  rw [honce] at heq
  exact absurd (hmore.symm.trans heq) (by decide)

end LiveMarkdown
