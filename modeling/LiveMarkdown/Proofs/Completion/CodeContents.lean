import LiveMarkdown.Proofs.Completion.CodeSpans

/-!
# Contents of code

What stands in code has no part in the scan of a text. In a fence every line but the closing one
does the same thing: it makes the fence one with a body. So what follows a fence that is still open
is scanned in the same way whatever lines its body has so far. A code span is entered and left by
its backticks alone.

## Main definitions

* `OpenFence.IsClosingLine`: the lines that close a fence.

## Main results

* `OpenFence.IsSound.step_eq_none_iff`: a fence is closed by its closing lines and by no others.
* `ScanState.passLines_of_forall_not_isClosingLine`: what other lines make of an open fence.
* `scanText_eq_of_codeContents`: the contents of code spans and of fences do not matter for the
  scan.
-/

namespace LiveMarkdown

variable {f : OpenFence} {line : List Char}

/-! ### Lines that close a fence -/

/-- A line that closes a fence: behind its quote markers and not too much white space it holds a run
that is long enough, and white space alone behind the run. -/
def OpenFence.IsClosingLine (f : OpenFence) (line : List Char) : Prop :=
  ∃ indentation run tail,
    dropQuoteMarkers f.quoteDepth line = indentation ++ (List.replicate run f.mark.char ++ tail) ∧
      (∀ x ∈ indentation, isSpace x = true) ∧ indentation.length ≤ f.indent + 3 ∧ f.length ≤ run ∧
        isBlankLine tail = true

theorem OpenFence.isClosingLine_of_step_eq_none {final : Bool} (h : f.step line final = none) :
    f.IsClosingLine line := by
  unfold OpenFence.step at h
  simp only at h
  unfold IsClosingLine
  generalize dropQuoteMarkers f.quoteDepth line = inner at h ⊢
  split at h
  · rename_i hcloses
    simp only [Bool.and_eq_true, decide_eq_true_eq] at hcloses
    obtain ⟨⟨⟨-, hindent⟩, hlong⟩, htail⟩ := hcloses
    have hinner : inner.takeWhile isSpace ++ inner.dropWhile isSpace = inner :=
      List.takeWhile_append_dropWhile
    have hlength : (inner.takeWhile isSpace).length + (inner.dropWhile isSpace).length =
        inner.length := by
      rw [← List.length_append, hinner]
    refine ⟨inner.takeWhile isSpace, _, _, ?_, fun x hx => List.mem_takeWhile_imp hx, by omega,
      hlong, htail⟩
    rw [replicate_runLength_append_drop, hinner]
  · split at h <;> exact absurd h (by simp)

namespace OpenFence.IsSound

/-- A fence is closed by its closing lines and by no others. -/
theorem step_eq_none_iff (h : f.IsSound) (final : Bool) :
    f.step line final = none ↔ f.IsClosingLine line := by
  refine ⟨isClosingLine_of_step_eq_none, ?_⟩
  rintro ⟨indentation, run, tail, hinner, hspace, hindent, hlong, htail⟩
  have hthree := h.three_le_length
  have hmark : isSpace f.mark.char = false ∧ isAsciiWhiteSpace f.mark.char = false := by
    cases f.mark <;> decide
  have hbody : (dropQuoteMarkers f.quoteDepth line).dropWhile isSpace =
      List.replicate run f.mark.char ++ tail := by
    obtain ⟨k, rfl⟩ : ∃ k, run = k + 1 := ⟨run - 1, by omega⟩
    rw [hinner, List.dropWhile_append_of_pos hspace, List.replicate_succ, List.cons_append,
      List.dropWhile_cons_of_neg (by simp [hmark.1])]
  have htailHead : tail.head? ≠ some f.mark.char := by
    intro hhead
    have hwhite := List.all_eq_true.mp htail _ (List.mem_of_head? hhead)
    exact absurd (hwhite.symm.trans hmark.2) (by decide)
  have hlength : (dropQuoteMarkers f.quoteDepth line).length =
      indentation.length + (List.replicate run f.mark.char ++ tail).length := by
    rw [hinner, List.length_append]
  unfold OpenFence.step
  simp only [hbody, runLength_replicate_append htailHead, List.drop_left' List.length_replicate,
    hlength, Nat.add_sub_cancel]
  rw [if_pos]
  simp only [Bool.and_eq_true, decide_eq_true_eq]
  exact ⟨⟨⟨by omega, hindent⟩, hlong⟩, htail⟩

/-- A carriage return at its end does not keep a line from closing a fence. -/
theorem isClosingLine_of_stripReturn (h : f.IsSound)
    (hline : f.IsClosingLine (ScanState.stripReturn line).1) : f.IsClosingLine line := by
  unfold ScanState.stripReturn at hline
  split at hline
  · rename_i hreturn
    obtain ⟨indentation, run, tail, hinner, hspace, hindent, hlong, htail⟩ := hline
    have hthree := h.three_le_length
    have hmem : f.mark.char ∈ dropQuoteMarkers f.quoteDepth line.dropLast := by
      rw [hinner]
      refine List.mem_append_right _
        (List.mem_append_left _ (List.mem_replicate.mpr ⟨by omega, rfl⟩))
    have hmark : f.mark.char ≠ ' ' := by cases f.mark <;> decide
    refine ⟨indentation, run, tail ++ ['\r'], ?_, hspace, hindent, hlong, ?_⟩
    · rw [← List.dropLast_append_getLast? '\r' hreturn, dropQuoteMarkers_append hmem hmark, hinner]
      simp only [List.append_assoc]
    · rw [isBlankLine, List.all_append]
      exact Bool.and_eq_true_iff.mpr ⟨htail, by decide⟩
  · exact hline

end OpenFence.IsSound

namespace ScanState

variable {st : ScanState} {text : List Char} {lines : List (List Char)} {lineBreakFollows : Bool}

theorem scanLine_of_not_isClosingLine (hst : st.fence = some f) (hline : ¬f.IsClosingLine line) :
    st.scanLine line false = { st with fence := some { f with hasBody := true } } := by
  have hopen : f.step line false ≠ none :=
    fun hclosed => hline (OpenFence.isClosingLine_of_step_eq_none hclosed)
  obtain ⟨g, hg⟩ := Option.ne_none_iff_exists'.mp hopen
  rw [scanLine, hst]
  simp only [OpenFence.step_false_of_step_eq_some hg]

/-- Lines that do not close a fence all do the same: they are its body. -/
theorem passLines_of_forall_not_isClosingLine (hst : st.fence = some f) (hsound : f.IsSound)
    (hlines : ∀ line ∈ lines, ¬f.IsClosingLine line) (hne : lines ≠ []) :
    st.passLines lines = { st with fence := some { f with hasBody := true } } := by
  induction lines generalizing st f with
  | nil => exact absurd rfl hne
  | cons line lines ih =>
    obtain ⟨hline, hlines⟩ := List.forall_mem_cons.mp hlines
    have hstep := scanLine_of_not_isClosingLine hst fun hclosing =>
      hline (hsound.isClosingLine_of_stripReturn hclosing)
    change (st.scanLine (stripReturn line).1 false).passLines lines = _
    rw [hstep]
    by_cases hnil : lines = []
    · subst hnil
      rfl
    · exact ih (f := { f with hasBody := true }) rfl ⟨hsound.three_le_length, hsound.leader_eq⟩
        hlines hnil

/-- The fence that is reported behind a line end is the one that is open there, with a body. -/
theorem exists_fence_of_newline (h : (scanText (text ++ ['\n']) lineBreakFollows).fence = some f) :
    ∃ f₀ : OpenFence, (ScanState.empty.passLines (splitLines text)).fence = some f₀ ∧ f₀.IsSound ∧
      f = { f₀ with hasBody := true } := by
  rw [fence_scanText, splitLines_append_newline, scanLines_append _ _ (splitLines_ne_nil [])] at h
  replace h : ((ScanState.empty.passLines (splitLines text)).scanLine [] true).fence = some f := h
  have hreached : (ScanState.empty.passLines (splitLines text)).IsReached text :=
    (isReached_empty text).passLines fun _ hline => subset_of_mem_splitLines hline
  rw [scanLine] at h
  split at h
  · rename_i f₀ hf₀
    exact ⟨f₀, hf₀, (hreached.fence f₀ hf₀).1, Option.some.inj (h.symm.trans (f₀.step_nil true))⟩
  · rw [scanMarkup_of_isBlankLine _ (by decide)] at h
    exact absurd h fence_empty_ne_some

end ScanState

/-- What stands in a fence does not matter for what follows. -/
theorem scanText_eq_of_fenceContent {text : List Char}
    (hfence : (scanText (text ++ ['\n']) false).fence = some f) {body body' : List Char}
    (hbody : ∀ line ∈ splitLines body, ¬f.IsClosingLine line)
    (hbody' : ∀ line ∈ splitLines body', ¬f.IsClosingLine line) (after : List Char) :
    scanText (text ++ '\n' :: (body' ++ '\n' :: after)) false =
      scanText (text ++ '\n' :: (body ++ '\n' :: after)) false := by
  obtain ⟨f₀, hf₀, hsound, rfl⟩ := ScanState.exists_fence_of_newline hfence
  have hscan : ∀ body, (∀ line ∈ splitLines body, ¬f₀.IsClosingLine line) →
      ScanState.empty.scanLines (splitLines (text ++ '\n' :: (body ++ '\n' :: after))) =
        ScanState.scanLines { ScanState.empty.passLines (splitLines text) with
          fence := some { f₀ with hasBody := true } } (splitLines after) := by
    intro body hlines
    rw [splitLines_append_newline, splitLines_append_newline, ← List.append_assoc,
      ScanState.scanLines_append _ _ (splitLines_ne_nil after), ScanState.passLines_append,
      ScanState.passLines_of_forall_not_isClosingLine hf₀ hsound hlines (splitLines_ne_nil body)]
  exact scanText_congr ((hscan body' hbody').trans (hscan body hbody).symm) rfl

/-- The contents of code do not matter for the scan of a text: neither the content of a code span
behind a letter or a digit where no literal construct is open, nor the lines of a fence that do not
close it. -/
theorem scanText_eq_of_codeContents :
    (∀ (text after body body' : List Char) (run : Nat), (∃ c ∈ text.getLast?, c.isAlphanum = true) →
      (scanText text false).fence = none →
      (∀ x ∈ (scanText text false).openConstructs.getLast?, x.isLiteral = false) →
      0 < run → IsSpanBody body → IsSpanBody body' → after.head? ≠ some '`' →
      scanText (text ++ codeSpanOf run body' ++ after) false =
        scanText (text ++ codeSpanOf run body ++ after) false) ∧
      ∀ (text after body body' : List Char) (f : OpenFence),
        (scanText (text ++ ['\n']) false).fence = some f →
        (∀ line ∈ splitLines body, ¬f.IsClosingLine line) →
        (∀ line ∈ splitLines body', ¬f.IsClosingLine line) →
        scanText (text ++ '\n' :: (body' ++ '\n' :: after)) false =
          scanText (text ++ '\n' :: (body ++ '\n' :: after)) false := by
  refine ⟨fun text after body body' run hlast hfence hopen hrun hbody hbody' hafter => ?_,
    fun text after body body' f hfence hbody hbody' =>
      scanText_eq_of_fenceContent hfence hbody hbody' after⟩
  obtain ⟨c, htext, hc⟩ := hlast
  rw [List.append_assoc, List.append_assoc]
  exact scanText_append_codeSpanOf htext hc hfence hopen hrun hbody hbody' hafter

/-- A label in emphasis whose code span holds markers, or letters, and a fence in a block quote
whose body holds what would open a formula and a fence, or is empty. -/
theorem scanText_eq_of_markers_in_code :
    scanText ("> 1. *a [b".toList ++ codeSpanOf 2 "** $".toList ++ "c](d\n> *e".toList) false =
        scanText ("> 1. *a [b".toList ++ codeSpanOf 2 "xyz".toList ++ "c](d\n> *e".toList) false ∧
      scanText ("> ~~~ts".toList ++ '\n' :: ("> $ ```\n> ~~".toList ++ '\n' :: "> ~~~\n*f".toList))
        false =
        scanText ("> ~~~ts".toList ++ '\n' :: ([] ++ '\n' :: "> ~~~\n*f".toList)) false := by
  obtain ⟨hspan, hfence⟩ := scanText_eq_of_codeContents
  have hsound : OpenFence.IsSound ⟨.tilde, 3, 0, 1, ['>', ' '], true, 0⟩ := ⟨by decide, by simp⟩
  refine ⟨hspan _ _ _ _ _ ⟨'b', rfl, by decide⟩ (by cbv) ?_ (by decide)
      ⟨by decide, by decide, by decide⟩ ⟨by decide, by decide, by decide⟩ (by decide),
    hfence _ _ _ _ ⟨.tilde, 3, 0, 1, ['>', ' '], true, 0⟩ (by cbv) ?_ ?_⟩
  · have hopen : (scanText "> 1. *a [b".toList false).openConstructs.getLast? =
        some (.linkLabel false false) := by
      cbv
    intro x hx
    obtain rfl := Option.some.inj (hopen.symm.trans hx)
    rfl
  · intro line hline
    obtain rfl := List.mem_singleton.mp hline
    exact (hsound.step_eq_none_iff false).not.mp (by decide)
  · intro line hline
    have hlines : splitLines "> $ ```\n> ~~".toList = ["> $ ```".toList, "> ~~".toList] := by cbv
    rw [hlines] at hline
    rcases List.mem_pair.mp hline with rfl | rfl
    · exact (hsound.step_eq_none_iff false).not.mp (by decide)
    · exact (hsound.step_eq_none_iff false).not.mp (by decide)

end LiveMarkdown
