import LiveMarkdown.Proofs.Completion.Fences

/-!
# Completed table heads

A table head that a line break follows is completed by its separator row. The row is a line of its
own behind another row, so that it is no table head itself, and it opens nothing.

## Main results

* `ScanState.scanLines_append_row`: a completed table head leaves nothing open, and is not completed
  again.
-/

namespace LiveMarkdown

variable {line row text : List Char}

theorem isPipeRow_of_tableSeparatorFor {previous : Option (List Char)}
    (h : tableSeparatorFor line previous = some row) : isPipeRow line = true := by
  unfold tableSeparatorFor at h
  simp only at h
  split at h
  · exact absurd h (by simp)
  · rename_i hrow
    simp only [Bool.or_eq_true, Bool.not_eq_true', not_or, Bool.not_eq_false] at hrow
    exact hrow.1

/-- A separator row starts with a pipe and holds pipes, hyphens and spaces. -/
theorem exists_cons_of_tableSeparatorFor {previous : Option (List Char)}
    (h : tableSeparatorFor line previous = some row) :
    ∃ rest, row = '|' :: rest ∧ rest.getLast? = some '|' ∧
      ∀ x ∈ row, x = '|' ∨ x = '-' ∨ x = ' ' := by
  unfold tableSeparatorFor at h
  simp only at h
  split at h
  · exact absurd h (by simp)
  · split at h
    · exact absurd h (by simp)
    · obtain rfl := Option.some.inj h
      obtain ⟨k, hk⟩ : ∃ k, max 1 (countPipes (trim line) - 1) = k + 1 :=
        ⟨max 1 (countPipes (trim line) - 1) - 1, by omega⟩
      refine ⟨_, rfl, ?_, fun x hx => ?_⟩
      · rw [hk, List.replicate_succ', List.flatten_append, List.flatten_singleton,
          List.getLast?_append]
        rfl
      · rcases List.mem_cons.mp hx with rfl | hx
        · exact Or.inl rfl
        · obtain ⟨cell, hcell, hx⟩ := List.mem_flatten.mp hx
          rw [List.eq_of_mem_replicate hcell] at hx
          simp only [List.mem_cons, List.not_mem_nil, or_false] at hx
          rcases hx with rfl | rfl | rfl | rfl <;> simp

theorem head?_trim_of_isPipeRow (h : isPipeRow line = true) : (trim line).head? = some '|' := by
  unfold isPipeRow at h
  simp only [Bool.and_eq_true] at h
  exact beq_iff_eq.mp h.1.2

theorem mem_of_isPipeRow (h : isPipeRow line = true) : '|' ∈ line := by
  have hmem : '|' ∈ trim line := List.mem_of_head? (head?_trim_of_isPipeRow h)
  have hleft : '|' ∈ (trimLeft line).reverse :=
    (List.dropWhile_suffix _).subset (List.mem_reverse.mp hmem)
  exact (List.dropWhile_suffix _).subset (List.mem_reverse.mp hleft)

/-- No table head follows another row. -/
theorem tableSeparatorFor_of_isPipeRow {previous : List Char} (h : isPipeRow previous = true) :
    tableSeparatorFor line (some previous) = none := by
  have hhead : (trim previous).head? == some '|' := by
    rw [head?_trim_of_isPipeRow h]
    rfl
  unfold tableSeparatorFor
  simp only [Option.any_some, hhead, if_true]
  exact ite_self none

/-- Pipes, hyphens and spaces open nothing. -/
theorem InlineState.scan_of_row {view : InlineLine} {before cs : List Char}
    (h : ∀ x ∈ cs, x = '|' ∨ x = '-' ∨ x = ' ') : scan view .empty before cs = .empty := by
  induction cs generalizing before with
  | nil => exact scan_nil _ _ _
  | cons x cs ih =>
    have hstep : step view .empty before x cs = (.empty, 0) := by
      rcases h x List.mem_cons_self with rfl | rfl | rfl <;> rfl
    rw [scan_cons, hstep]
    exact ih fun y hy => h y (List.mem_cons_of_mem x hy)

namespace ScanState

variable {st : ScanState}

/-- Behind a row that is not the last line nothing is open. -/
theorem scanLine_of_isPipeRow (hrow : isPipeRow line = true)
    (hfence : (st.scanLine line true).fence = none) : st.scanLine line false = empty := by
  unfold scanLine at hfence ⊢
  split
  · rename_i f hf
    rw [hf] at hfence
    exact absurd (mem_of_isPipeRow hrow) (OpenFence.not_mem_pipe_of_step_eq_none hfence)
  · rename_i hf
    rw [hf] at hfence
    replace hfence : (st.scanMarkup line true).fence = none := hfence
    rw [scanMarkup_eq] at hfence ⊢
    split
    · rfl
    · rename_i hbreak
      rw [if_neg hbreak] at hfence
      split
      · rfl
      · rename_i hblank
        rw [if_neg hblank] at hfence
        split
        · rename_i f hopen
          rw [hopen] at hfence
          exact absurd hfence (by simp)
        · rw [hrow, Bool.or_true]
          rfl

/-- A table head and its separator row leave nothing open. -/
theorem scanLines_append_row {c : Char} (htext : text.getLast? = some c)
    (hc : isAsciiWhiteSpace c = false)
    (hfence : (ScanState.empty.scanLines (splitLines text)).fence = none)
    (hrow : separatorRow? text true = some row) :
    ScanState.empty.scanLines (splitLines (text ++ '\n' :: row)) = .empty ∧
      ∀ lineBreakFollows, separatorRow? (text ++ '\n' :: row) lineBreakFollows = none := by
  have hne : ∀ x, isAsciiWhiteSpace x = true → c ≠ x := by
    rintro x hx rfl
    exact absurd (hx.symm.trans hc) (by decide)
  obtain ⟨lines, last, hlast⟩ := exists_isLastLine text
  have hlastC : last.getLast? = some c := hlast.getLast?_eq (hne '\n' (by decide)) htext
  have hlastReturn : last.getLast? ≠ some '\r' := by
    rw [hlastC, ne_eq, Option.some.injEq]
    exact hne '\r' (by decide)
  rw [separatorRow?, if_pos rfl, hlast.splitLines_eq, List.getLastD_concat] at hrow
  have hpipe := isPipeRow_of_tableSeparatorFor hrow
  obtain ⟨rest, rfl, hrestLast, hchars⟩ := exists_cons_of_tableSeparatorFor hrow
  have hnewline : '\n' ∉ '|' :: rest := by
    intro hmem
    rcases hchars _ hmem with heq | heq | heq <;> exact absurd heq (by decide)
  have hrowReturn : ('|' :: rest).getLast? ≠ some '\r' := by
    intro heq
    rcases hchars _ (List.mem_of_getLast? heq) with heq | heq | heq <;> exact absurd heq (by decide)
  have hlonger := hlast.newline hnewline
  refine ⟨?_, fun lineBreakFollows => ?_⟩
  · rw [scanLines_of_isLastLine hlast hlastReturn] at hfence
    obtain ⟨view, hview⟩ := exists_scanMarkup_cons (Or.inr rfl) .empty rest
    rw [scanLines_of_isLastLine hlonger hrowReturn, passLines_append, passLines, List.foldl_cons,
      List.foldl_nil, stripReturn_of_getLast?_ne hlastReturn, scanLine_of_isPipeRow hpipe hfence]
    refine hview.trans ?_
    rw [InlineState.scan_of_row hchars]
    rfl
  · rw [separatorRow?, hlonger.splitLines_eq, List.getLastD_concat, List.dropLast_concat,
      List.getLast?_concat, tableSeparatorFor_of_isPipeRow hpipe]
    exact ite_self none

end ScanState

end LiveMarkdown
