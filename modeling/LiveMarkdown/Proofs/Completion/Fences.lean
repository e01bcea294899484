import LiveMarkdown.Proofs.Completion.Completed

/-!
# Completed fences

The closer of a fence is the rest of a closing run that the text has begun, or a closing line. The
rest of a run always closes the fence. A closing line is written with the containers of the opening
line, and closes the fence exactly if the fence takes it for a closing line of its own.

## Main results

* `OpenFence.eq_of_step_eq_some`: what a line makes of a fence that it does not close.
* `ScanState.scanLines_fence_cases`: how the last line of a text leaves a fence open.
* `suffix_scanText_append_closer_eq_nil_iff`: when the closer of a fence closes it.
-/

namespace LiveMarkdown

variable {f g : OpenFence} {line : List Char}

/-! ### A line within a fence -/

theorem eq_replicate_of_drop_runLength_eq_nil {c : Char} {cs : List Char}
    (h : cs.drop (runLength c cs) = []) : cs = List.replicate (runLength c cs) c := by
  conv_lhs => rw [← replicate_runLength_append_drop c cs, h, List.append_nil]

/-- A line that does not close a fence belongs to its body, or ends the text in the start of a
closing run. -/
theorem OpenFence.eq_of_step_eq_some {final : Bool} (h : f.step line final = some g) :
    g = { f with hasBody := true } ∨
      final = true ∧ ∃ run, 0 < run ∧ run < f.length ∧ g = { f with partialClose := run } ∧
        (dropQuoteMarkers f.quoteDepth line).dropWhile isSpace = List.replicate run f.mark.char ∧
        (dropQuoteMarkers f.quoteDepth line).length - run ≤ f.indent + 3 := by
  unfold OpenFence.step at h
  simp only at h
  generalize dropQuoteMarkers f.quoteDepth line = inner at h ⊢
  generalize hbody : inner.dropWhile isSpace = body at h ⊢
  split at h
  · exact absurd h (by simp)
  · rename_i hcloses
    split at h
    · rename_i hbegins
      right
      simp only [Bool.and_eq_true, decide_eq_true_eq, List.isEmpty_iff] at hbegins
      obtain ⟨⟨⟨hrun, hindent⟩, hfinal⟩, htail⟩ := hbegins
      have hall := eq_replicate_of_drop_runLength_eq_nil htail
      have hlength := congrArg List.length hall
      rw [List.length_replicate] at hlength
      refine ⟨hfinal, runLength f.mark.char body, hrun, ?_, (Option.some.inj h).symm, hall, ?_⟩
      · refine Nat.lt_of_not_le fun hlong => hcloses ?_
        simp [hrun, hindent, hlong, htail, isBlankLine]
      · rw [← hlength]
        exact hindent
    · exact Or.inl (Option.some.inj h).symm

/-- Before the end of the text a line belongs to the body or closes the fence. -/
theorem OpenFence.step_false_of_step_eq_some {final : Bool} (h : f.step line final = some g) :
    f.step line false = some { f with hasBody := true } := by
  unfold OpenFence.step at h ⊢
  simp only at h ⊢
  split at h
  · exact absurd h (by simp)
  · rename_i hcloses
    rw [if_neg hcloses, Bool.and_false, Bool.false_and, if_neg (by simp)]

theorem mem_dropSpaces_or {x : Char} {n : Nat} {cs : List Char} (h : x ∈ cs) :
    x ∈ dropSpaces n cs ∨ x = ' ' := by
  fun_induction dropSpaces n cs with
  | case1 n cs ih =>
    rcases List.mem_cons.mp h with rfl | h
    · exact Or.inr rfl
    · exact ih h
  | case2 n cs hcs => exact Or.inl h

/-- A line holds its content, and quote markers and spaces. -/
theorem mem_dropQuoteMarkers_or {x : Char} {n : Nat} {cs : List Char} (h : x ∈ cs) :
    x ∈ dropQuoteMarkers n cs ∨ x = ' ' ∨ x = '>' := by
  fun_induction dropQuoteMarkers n cs with
  | case1 cs => exact Or.inl h
  | case2 n cs rest hcs ih =>
    rcases mem_dropSpaces_or (n := 3) h with h | rfl
    · rw [hcs] at h
      rcases List.mem_cons.mp h with rfl | h
      · exact Or.inr (Or.inr rfl)
      · rcases mem_dropSpaces_or (n := 1) h with h | rfl
        · exact ih h
        · exact Or.inr (Or.inl rfl)
    · exact Or.inr (Or.inl rfl)
  | case3 n cs hcs => exact Or.inl h

/-- A line that closes a fence holds no pipe. -/
theorem OpenFence.not_mem_pipe_of_step_eq_none {final : Bool} (h : f.step line final = none) :
    '|' ∉ line := by
  intro hpipe
  have hinner : '|' ∈ dropQuoteMarkers f.quoteDepth line := by
    rcases mem_dropQuoteMarkers_or (n := f.quoteDepth) hpipe with hmem | hspace | hquote
    · exact hmem
    · exact absurd hspace (by decide)
    · exact absurd hquote (by decide)
  unfold OpenFence.step at h
  simp only at h
  generalize dropQuoteMarkers f.quoteDepth line = inner at h hinner
  generalize hbody : inner.dropWhile isSpace = body at h
  have hmemBody : '|' ∈ body := by
    rw [← List.takeWhile_append_dropWhile (p := isSpace) (l := inner), hbody] at hinner
    rcases List.mem_append.mp hinner with hspace | hmem
    · exact absurd (List.mem_takeWhile_imp hspace) (by decide)
    · exact hmem
  have htail : '|' ∈ body.drop (runLength f.mark.char body) := by
    have hrun : '|' ∉ body.takeWhile (· == f.mark.char) := by
      intro hmem
      have hmark := beq_iff_eq.mp (List.mem_takeWhile_imp (p := (· == f.mark.char)) hmem)
      cases hf : f.mark <;> rw [hf] at hmark <;> exact absurd hmark (by decide)
    rw [← List.take_append_drop (runLength f.mark.char body) body] at hmemBody
    rcases List.mem_append.mp hmemBody with hmem | hmem
    · rw [runLength, ← List.prefix_iff_eq_take.mp (List.takeWhile_prefix _)] at hmem
      exact absurd hmem hrun
    · exact hmem
  split at h
  · rename_i hcloses
    simp only [Bool.and_eq_true] at hcloses
    exact absurd (List.all_eq_true.mp hcloses.2 _ htail) (by decide)
  · split at h <;> exact absurd h (by simp)

theorem dropQuoteMarkers_append {n : Nat} {cs : List Char} {x : Char}
    (hx : x ∈ dropQuoteMarkers n cs) (hspace : x ≠ ' ') (more : List Char) :
    dropQuoteMarkers n (cs ++ more) = dropQuoteMarkers n cs ++ more := by
  have hne : ∀ k ds, x ∈ ds → dropSpaces k ds ≠ [] := by
    intro k ds hds hnil
    rcases mem_dropSpaces_or (n := k) hds with hmem | rfl
    · rw [hnil] at hmem
      exact absurd hmem List.not_mem_nil
    · exact hspace rfl
  fun_induction dropQuoteMarkers n cs with
  | case1 cs => rfl
  | case2 n cs rest hcs ih =>
    have hmem : x ∈ afterQuoteMarker rest := (dropQuoteMarkers_suffix _ _).subset hx
    have hrest : x ∈ rest := (dropSpaces_suffix 1 rest).subset hmem
    have happend : dropSpaces 3 (cs ++ more) = '>' :: (rest ++ more) := by
      rw [dropSpaces_append (by simp [hcs]), hcs, List.cons_append]
    rw [dropQuoteMarkers, happend]
    simp only [afterQuoteMarker]
    rw [dropSpaces_append (hne 1 rest hrest)]
    exact ih hx
  | case3 n cs hcs =>
    rw [dropQuoteMarkers, dropSpaces_append (hne 3 cs hx)]
    obtain ⟨y, ys, hdrop⟩ := List.exists_cons_of_ne_nil (hne 3 cs hx)
    rw [hdrop, List.cons_append]
    split
    · rename_i heq
      obtain ⟨rfl, -⟩ := List.cons.inj heq
      exact absurd hdrop (hcs ys)
    · rfl

/-- The rest of a closing run closes the fence. -/
theorem OpenFence.step_append_of_run {run : Nat} (hrun : 0 < run) (hshort : run < f.length)
    (hbody : (dropQuoteMarkers f.quoteDepth line).dropWhile isSpace =
      List.replicate run f.mark.char)
    (hindent : (dropQuoteMarkers f.quoteDepth line).length - run ≤ f.indent + 3) (final : Bool) :
    f.step (line ++ List.replicate (f.length - run) f.mark.char) final = none := by
  have hmark : isSpace f.mark.char = false ∧ f.mark.char ≠ ' ' := by
    cases f.mark <;> decide
  have hmem : f.mark.char ∈ (dropQuoteMarkers f.quoteDepth line).dropWhile isSpace := by
    rw [hbody]
    exact List.mem_replicate.mpr ⟨Nat.ne_of_gt hrun, rfl⟩
  have hinner := dropQuoteMarkers_append ((List.dropWhile_suffix _).subset hmem) hmark.2
    (List.replicate (f.length - run) f.mark.char)
  have hbodyAppend : (dropQuoteMarkers f.quoteDepth line ++
      List.replicate (f.length - run) f.mark.char).dropWhile isSpace =
        List.replicate f.length f.mark.char := by
    rw [List.dropWhile_append, if_neg (by simp [hbody]; omega), hbody,
      List.replicate_append_replicate, Nat.add_sub_cancel' (Nat.le_of_lt hshort)]
  have hlength : runLength f.mark.char (List.replicate f.length f.mark.char) = f.length := by
    simp [runLength]
  unfold OpenFence.step
  simp only [hinner, hbodyAppend, hlength, List.length_append, List.length_replicate]
  rw [if_pos]
  simp [isBlankLine]
  omega

/-! ### The fence that a text leaves open -/

theorem FenceMark.of_char (mark : FenceMark) :
    isBlankChar mark.char = false ∧ mark.char ≠ '|' ∧ mark.char ≠ '\r' ∧ mark.char ≠ '\n' := by
  cases mark <;> decide

/-- The line that closes a fence, as completion writes it. -/
def OpenFence.closingLine (f : OpenFence) : List Char :=
  f.leader ++ List.replicate f.length f.mark.char

theorem OpenFence.IsSound.getLast?_closingLine (h : f.IsSound) :
    f.closingLine.getLast? = some f.mark.char := by
  have hpos : f.length ≠ 0 := Nat.ne_of_gt (Nat.lt_of_lt_of_le (by decide) h.three_le_length)
  rw [closingLine, List.getLast?_append, List.getLast?_replicate, if_neg hpos, Option.some_or]

theorem OpenFence.IsSound.newline_not_mem_closingLine (h : f.IsSound) : '\n' ∉ f.closingLine := by
  intro hmem
  rcases List.mem_append.mp hmem with hmem | hmem
  · rcases h.leader_eq _ hmem with heq | heq | heq <;> exact absurd heq (by decide)
  · exact f.mark.of_char.2.2.2 (List.eq_of_mem_replicate hmem).symm

namespace ScanState

variable {st : ScanState} {text last : List Char} {lines : List (List Char)}

theorem fence_empty_ne_some : ScanState.empty.fence ≠ some f := by
  simp [empty]

/-- A fence that is open behind a line outside a fence has been opened by the line. -/
theorem openFence?_of_fence_scanMarkup {final : Bool}
    (h : (st.scanMarkup line final).fence = some f) :
    openFence? line (lineContent line) (containerLead line).quoteDepth = some f := by
  rw [scanMarkup_eq] at h
  split at h
  · exact absurd h fence_empty_ne_some
  · split at h
    · exact absurd h fence_empty_ne_some
    · split at h
      · rename_i g hfence
        rw [hfence]
        exact h
      · split at h
        · exact absurd h fence_empty_ne_some
        · exact absurd h (by simp)

theorem of_fence_scanMarkup {final : Bool} (h : (st.scanMarkup line final).fence = some f) :
    f.hasBody = false ∧ f.partialClose = 0 :=
  (isSound_of_openFence?_eq_some (openFence?_of_fence_scanMarkup h)).2

theorem partialClose_scanLine (hst : ∀ g, st.fence = some g → g.partialClose = 0)
    (h : (st.scanLine line false).fence = some f) : f.partialClose = 0 := by
  rw [scanLine] at h
  split at h
  · rename_i g hg
    replace h : g.step line false = some f := h
    obtain rfl := Option.some.inj (h.symm.trans (OpenFence.step_false_of_step_eq_some h))
    exact hst g hg
  · exact (of_fence_scanMarkup h).2

/-- Between two lines no closing run has begun. -/
theorem partialClose_passLines (hst : ∀ g, st.fence = some g → g.partialClose = 0)
    (h : (st.passLines lines).fence = some f) : f.partialClose = 0 := by
  induction lines generalizing st with
  | nil => exact hst f h
  | cons line lines ih => exact ih (fun _ hg => partialClose_scanLine hst hg) h

/-- A fence is open at the end of a text because the last line has opened it, belongs to its body,
or begins to close it. -/
theorem scanLines_fence_cases (hlast : IsLastLine text lines last)
    (h : (ScanState.empty.scanLines (splitLines text)).fence = some f) :
    f.closer = [] ∨
      (f.closer = '\n' :: f.closingLine ∧ f.partialClose = 0 ∧
        ScanState.empty.passLines (lines ++ [last]) = ⟨.empty, some f⟩) ∨
      (0 < f.partialClose ∧ ScanState.empty.scanLines (splitLines (text ++ f.closer)) =
        .empty) := by
  have hreached : (ScanState.empty.passLines lines).IsReached text :=
    (isReached_empty text).passLines fun line hline => hlast.subset_of_mem hline
  rw [hlast.splitLines_eq, scanLines_concat, scanLine] at h
  split at h
  · rename_i f₀ hf₀
    obtain ⟨hsound, hinline⟩ := hreached.fence f₀ hf₀
    have hzero := partialClose_passLines (fun _ hg => absurd hg fence_empty_ne_some) hf₀
    replace h : f₀.step (stripReturn last).1 (stripReturn last).2 = some f := h
    rcases OpenFence.eq_of_step_eq_some h with
      rfl | ⟨hfinal, run, hrun, hshort, rfl, hbody, hindent⟩
    · refine Or.inr (Or.inl ⟨?_, hzero, ?_⟩)
      · simp [OpenFence.closer, OpenFence.closingLine, hzero]
      · rw [passLines_append, passLines, List.foldl_cons, List.foldl_nil, scanLine, hf₀]
        simp only [OpenFence.step_false_of_step_eq_some h, hinline]
    · -- The last line ends in the start of a closing run, and the closer is the rest of the run.
      refine Or.inr (Or.inr ⟨hrun, ?_⟩)
      have hreturn : last.getLast? ≠ some '\r' := by
        intro heq
        simp [stripReturn, heq] at hfinal
      rw [stripReturn_of_getLast?_ne hreturn] at hbody hindent
      have hcloser : OpenFence.closer { f₀ with partialClose := run } =
          List.replicate (f₀.length - run) f₀.mark.char := by
        rw [OpenFence.closer, if_pos hrun]
      have hmark := f₀.mark.of_char
      have hnewline : '\n' ∉ List.replicate (f₀.length - run) f₀.mark.char :=
        fun hmem => hmark.2.2.2 (List.eq_of_mem_replicate hmem).symm
      have hlastChar : (last ++ List.replicate (f₀.length - run) f₀.mark.char).getLast? ≠
          some '\r' := by
        rw [List.getLast?_append, List.getLast?_replicate, if_neg (by omega), Option.some_or, ne_eq,
          Option.some.injEq]
        exact hmark.2.2.1
      rw [hcloser, scanLines_of_isLastLine (hlast.append hnewline) hlastChar, scanLine, hf₀]
      simp only [OpenFence.step_append_of_run hrun hshort hbody hindent, hinline]
      rfl
  · left
    obtain ⟨hbody, hpartial⟩ := of_fence_scanMarkup h
    simp [OpenFence.closer, hbody, hpartial]

end ScanState

/-! ### The closer of a fence -/

/-- The closer of a fence ends in a character of the fence. -/
theorem OpenFence.IsSound.getLast?_closer (h : f.IsSound) (hne : f.closer ≠ []) :
    f.closer.getLast? = some f.mark.char := by
  unfold OpenFence.closer at hne ⊢
  split
  · rename_i hrun
    rw [if_pos hrun] at hne
    rw [List.getLast?_replicate, if_neg]
    intro hzero
    rw [hzero] at hne
    exact hne rfl
  · rename_i hrun
    rw [if_neg hrun] at hne
    split
    · have hline : f.closingLine ≠ [] := by
        intro hnil
        have hlast := h.getLast?_closingLine
        rw [hnil] at hlast
        exact absurd hlast (by simp)
      exact (getLast?_of_suffix (List.suffix_cons '\n' f.closingLine) hline).symm.trans
        h.getLast?_closingLine
    · rename_i hbody
      rw [if_neg hbody] at hne
      exact absurd rfl hne

/-- A fence that a line leaves open, although no closing run has begun before, has a closer. -/
theorem OpenFence.closer_ne_nil_of_step {final : Bool} (hzero : f.partialClose = 0)
    (h : f.step line final = some g) : g.closer ≠ [] := by
  rcases eq_of_step_eq_some h with rfl | ⟨-, run, hrun, hshort, rfl, -, -⟩
  · simp [closer, hzero]
  · rw [closer, if_pos hrun, ne_eq, List.replicate_eq_nil_iff]
    show ¬f.length - run = 0
    omega

theorem suffix_scanText_of_scanLines_eq_empty {text : List Char} {lineBreakFollows : Bool}
    (h : ScanState.empty.scanLines (splitLines text) = .empty)
    (hrow : separatorRow? text lineBreakFollows = none) :
    (scanText text lineBreakFollows).suffix = [] := by
  rw [scanText_of_separatorRow?_eq_none (congrArg ScanState.fence h) hrow, h]
  rfl

section

variable {text : List Char} {lineBreakFollows : Bool}

/-- What the closer of a fence does to it: the rest of a closing run ends it, and a closing line is
a line like any other. -/
theorem scanLines_append_closer (h : (ScanState.empty.scanLines (splitLines text)).fence = some f)
    (hne : f.closer ≠ []) :
    (0 < f.partialClose ∧ ScanState.empty.scanLines (splitLines (text ++ f.closer)) = .empty) ∨
      (f.partialClose = 0 ∧ f.hasBody = true ∧
        ScanState.empty.scanLines (splitLines (text ++ f.closer)) =
        ⟨.empty, f.step f.closingLine true⟩) := by
  have hsound : f.IsSound := ((ScanState.isReached_scanLines text).fence f h).1
  obtain ⟨lines, last, hlast⟩ := exists_isLastLine text
  rcases ScanState.scanLines_fence_cases hlast h with hnil | ⟨hcloser, hzero, hpass⟩ | ⟨hrun, hscan⟩
  · exact absurd hnil hne
  · refine Or.inr ⟨hzero, ?_, ?_⟩
    · refine Bool.eq_true_of_not_eq_false fun hbody => hne ?_
      simp [OpenFence.closer, hzero, hbody]
    · have hreturn : f.closingLine.getLast? ≠ some '\r' := by
        rw [hsound.getLast?_closingLine, ne_eq, Option.some.injEq]
        exact f.mark.of_char.2.2.1
      rw [hcloser, ScanState.scanLines_of_isLastLine
        (hlast.newline hsound.newline_not_mem_closingLine) hreturn, hpass]
      rfl
  · exact Or.inl ⟨hrun, hscan⟩

/-- Behind the closer of a fence no table head ends the text. -/
theorem separatorRow?_append_closer
    (h : (ScanState.empty.scanLines (splitLines text)).fence = some f) (hne : f.closer ≠ []) :
    separatorRow? (text ++ f.closer) lineBreakFollows = none := by
  have hsound : f.IsSound := ((ScanState.isReached_scanLines text).fence f h).1
  have hlast : (text ++ f.closer).getLast? = some f.mark.char := by
    rw [List.getLast?_append, hsound.getLast?_closer hne, Option.some_or]
  exact separatorRow?_of_getLast? hlast f.mark.of_char.1 f.mark.of_char.2.1 lineBreakFollows

/-- The closer of a fence that a text leaves open closes it, except where it is a closing line that
the fence does not take for one. -/
theorem suffix_scanText_append_closer_eq_nil_iff
    (h : (scanText text lineBreakFollows).fence = some f) :
    (scanText (text ++ f.closer) lineBreakFollows).suffix = [] ↔
      f.closer = [] ∨ 0 < f.partialClose ∨ f.step f.closingLine true = none := by
  rw [fence_scanText] at h
  by_cases hne : f.closer = []
  · rw [hne, List.append_nil, scanText_of_fence_eq_some h]
    simp [hne]
  have hrow : separatorRow? (text ++ f.closer) lineBreakFollows = none :=
    separatorRow?_append_closer h hne
  rcases scanLines_append_closer h hne with ⟨hrun, hscan⟩ | ⟨hzero, -, hscan⟩
  · exact iff_of_true (suffix_scanText_of_scanLines_eq_empty hscan hrow) (Or.inr (Or.inl hrun))
  · cases hstep : f.step f.closingLine true with
    | none =>
      rw [hstep] at hscan
      exact iff_of_true (suffix_scanText_of_scanLines_eq_empty hscan hrow) (by simp)
    | some g =>
      rw [scanText_of_fence_eq_some (congrArg ScanState.fence (hscan.trans (by rw [hstep])))]
      refine iff_of_false (OpenFence.closer_ne_nil_of_step hzero hstep) ?_
      simp [hne, hzero]

end

end LiveMarkdown
