import LiveMarkdown.Proofs.Completion.CodeSpans
import LiveMarkdown.Proofs.Completion.Idempotence
import LiveMarkdown.Proofs.Completion.ScanStates

/-!
# The separator row of a table head

A fragment that stops behind the head of a table is completed with a separator row. The row has as
many pipes as the head has unescaped ones, so that the two have the same number of columns, and it
is a row and a separator by the very tests that a scan makes. Hence the completed fragment needs
nothing more: its last line is a separator now, behind another row.

A head has at least two pipes that count. The first one starts the line, and the last one ends it
without a backslash in front.

## Main definitions

* `unescapedPipes`: the number of pipes that no odd run of backslashes stands before.
* `separatorOf`: the separator row of so many columns.
* `StopsAtTableHead`: a fragment that stops behind the head of a table.

## Main results

* `countPipes_eq_unescapedPipes`: the pipes that a scan counts are the unescaped ones.
* `two_le_countPipes_of_isPipeRow`: a row has at least two of them.
* `isPipeRow_separatorOf`, `isTableSeparator_separatorOf`: a separator row is recognised.
* `completeFragment_of_table_head`: what completion does with a table head.
-/

namespace LiveMarkdown

variable {c : Char} {cs before line row head : List Char} {columns : Nat}

/-! ### Counting pipes -/

/-- The pipes among the characters that no odd run of backslashes stands before. Here `before` is
what precedes the characters, nearest first. -/
def pipesBehind (before : List Char) : List Char → Nat
  | [] => 0
  | c :: cs =>
    (if c = '|' ∧ isEscapedBy before = false then 1 else 0) + pipesBehind (c :: before) cs

/-- The number of pipes of a line that no odd run of backslashes stands before. -/
def unescapedPipes (line : List Char) : Nat :=
  pipesBehind [] line

theorem isEscapedBy_cons_backslash (before : List Char) :
    isEscapedBy ('\\' :: before) = !isEscapedBy before := by
  have hlength : runLength '\\' ('\\' :: before) = runLength '\\' before + 1 := by
    simp [runLength]
  rw [isEscapedBy, isEscapedBy, hlength]
  rcases Nat.mod_two_eq_zero_or_one (runLength '\\' before) with hmod | hmod
  · rw [hmod, Nat.add_mod, hmod]
    rfl
  · rw [hmod, Nat.add_mod, hmod]
    rfl

theorem isEscapedBy_cons_of_ne (hc : c ≠ '\\') (before : List Char) :
    isEscapedBy (c :: before) = false := by
  have hlength : runLength '\\' (c :: before) = 0 := by simp [runLength, hc]
  rw [isEscapedBy, hlength]
  rfl

theorem countPipes_cons_of_ne (hc : c ≠ '\\') (cs : List Char) :
    countPipes (c :: cs) = (if c = '|' then 1 else 0) + countPipes cs := by
  rw [countPipes]
  · exact fun heq _ => hc heq
  · exact fun _ _ heq _ => hc heq

/-- A character is no backslash if it is none at the end and none in front of another character. -/
theorem ne_backslash_of_not_pair (hlone : c = '\\' → cs = [] → False)
    (hpair : ∀ x xs, c = '\\' → cs = x :: xs → False) : c ≠ '\\' := by
  intro hc
  cases cs with
  | nil => exact hlone hc rfl
  | cons x xs => exact hpair x xs hc rfl

theorem pipesBehind_cons_of_ne (hc : c ≠ '|') (before cs : List Char) :
    pipesBehind before (c :: cs) = pipesBehind (c :: before) cs := by
  rw [pipesBehind, if_neg fun h => hc h.1, Nat.zero_add]

theorem pipesBehind_cons_of_isEscapedBy (hbefore : isEscapedBy before = true) (c : Char)
    (cs : List Char) :
    pipesBehind before (c :: cs) = pipesBehind (c :: before) cs := by
  rw [pipesBehind, if_neg fun h => Bool.false_ne_true (h.2.symm.trans hbefore), Nat.zero_add]

/-- A count that skips what a backslash takes along counts the unescaped pipes. -/
theorem countPipes_eq_pipesBehind (hbefore : isEscapedBy before = false) :
    countPipes cs = pipesBehind before cs := by
  fun_induction countPipes cs generalizing before with
  | case1 => rfl
  | case2 => rfl
  | case3 x cs ih =>
    have hodd : isEscapedBy ('\\' :: before) = true := by
      rw [isEscapedBy_cons_backslash, hbefore, Bool.not_false]
    have heven : isEscapedBy (x :: '\\' :: before) = false := by
      by_cases hx : x = '\\'
      · rw [hx, isEscapedBy_cons_backslash, hodd, Bool.not_true]
      · exact isEscapedBy_cons_of_ne hx _
    rw [ih heven, pipesBehind_cons_of_ne (by decide) before, pipesBehind_cons_of_isEscapedBy hodd]
  | case4 c cs hlone hpair ih =>
    have hc := ne_backslash_of_not_pair hlone hpair
    rw [ih (isEscapedBy_cons_of_ne hc before), pipesBehind, hbefore]
    simp only [and_true]

theorem countPipes_eq_unescapedPipes (line : List Char) : countPipes line = unescapedPipes line :=
  countPipes_eq_pipesBehind rfl

/-! ### Pipes and trimming -/

theorem countPipes_cons_of_isBlankChar (hc : isBlankChar c = true) (cs : List Char) :
    countPipes (c :: cs) = countPipes cs := by
  have hne : ∀ x, isBlankChar x = false → c ≠ x := by
    rintro x hx rfl
    exact Bool.false_ne_true (hx.symm.trans hc)
  rw [countPipes_cons_of_ne (hne '\\' (by decide)), if_neg (hne '|' (by decide)), Nat.zero_add]

theorem countPipes_of_forall_isBlankChar (h : ∀ x ∈ cs, isBlankChar x = true) :
    countPipes cs = 0 := by
  induction cs with
  | nil => rfl
  | cons c cs ih =>
    obtain ⟨hc, hcs⟩ := List.forall_mem_cons.mp h
    rw [countPipes_cons_of_isBlankChar hc, ih hcs]

theorem countPipes_trimLeft (cs : List Char) : countPipes (trimLeft cs) = countPipes cs := by
  induction cs with
  | nil => rfl
  | cons c cs ih =>
    by_cases hc : isBlankChar c = true
    · rw [trimLeft, List.dropWhile_cons_of_pos hc, countPipes_cons_of_isBlankChar hc]
      exact ih
    · rw [trimLeft, List.dropWhile_cons_of_neg hc]

theorem countPipes_append_of_isBlankChar {blanks : List Char}
    (h : ∀ x ∈ blanks, isBlankChar x = true) :
    countPipes (cs ++ blanks) = countPipes cs := by
  fun_induction countPipes cs with
  | case1 => exact countPipes_of_forall_isBlankChar h
  | case2 =>
    cases blanks with
    | nil => rfl
    | cons x blanks =>
      show countPipes blanks = 0
      exact countPipes_of_forall_isBlankChar (List.forall_mem_cons.mp h).2
  | case3 x cs ih => exact ih
  | case4 c cs hlone hpair ih =>
    have hc := ne_backslash_of_not_pair hlone hpair
    rw [List.cons_append, countPipes_cons_of_ne hc, ih]

theorem exists_append_trimRight (cs : List Char) :
    ∃ blanks, cs = trimRight cs ++ blanks ∧ ∀ x ∈ blanks, isBlankChar x = true := by
  refine ⟨(cs.reverse.takeWhile isBlankChar).reverse, ?_, fun x hx => ?_⟩
  · rw [trimRight, ← List.reverse_append, List.takeWhile_append_dropWhile, List.reverse_reverse]
  · exact List.mem_takeWhile_imp (List.mem_reverse.mp hx)

/-- Blank characters at the edges do not count. -/
theorem countPipes_trim (line : List Char) : countPipes (trim line) = countPipes line := by
  obtain ⟨blanks, hline, hblanks⟩ := exists_append_trimRight (trimLeft line)
  calc countPipes (trim line)
      = countPipes (trimRight (trimLeft line) ++ blanks) :=
        (countPipes_append_of_isBlankChar hblanks).symm
    _ = countPipes (trimLeft line) := by rw [← hline]
    _ = countPipes line := countPipes_trimLeft line

/-- A pipe at the end counts, unless a backslash stands before it. -/
theorem countPipes_concat_pipe (h : cs.getLast? ≠ some '\\') :
    countPipes (cs ++ ['|']) = countPipes cs + 1 := by
  fun_induction countPipes cs with
  | case1 => rfl
  | case2 => exact absurd rfl h
  | case3 x cs ih =>
    show countPipes (cs ++ ['|']) = countPipes cs + 1
    refine ih fun hlast => h ?_
    rw [← hlast]
    exact (getLast?_of_suffix (List.suffix_append ['\\', x] cs) (by rintro rfl; cases hlast)).symm
  | case4 c cs hlone hpair ih =>
    have hc := ne_backslash_of_not_pair hlone hpair
    rw [List.cons_append, countPipes_cons_of_ne hc, ih, Nat.add_assoc]
    intro hlast
    refine h ?_
    rw [← hlast]
    exact (getLast?_of_suffix (List.suffix_cons c cs) (by rintro rfl; cases hlast)).symm

theorem endsInPipe_cons_iff (c : Char) (before : List Char) :
    endsInPipe (c :: before) = true ↔ c = '|' ∧ before.head? ≠ some '\\' := by
  by_cases hc : c = '|'
  · subst hc
    cases before with
    | nil => simp [endsInPipe]
    | cons y ys => by_cases hy : y = '\\' <;> simp [endsInPipe, hy]
  · simp [endsInPipe, hc]

/-- A row has at least two pipes that count: the first and the last one. -/
theorem two_le_countPipes_of_isPipeRow (h : isPipeRow line = true) : 2 ≤ countPipes line := by
  rw [← countPipes_trim]
  rw [isPipeRow_eq, Bool.and_eq_true, Bool.and_eq_true, decide_eq_true_eq, beq_iff_eq] at h
  obtain ⟨⟨hlength, hhead⟩, hend⟩ := h
  generalize trim line = row at hlength hhead hend
  obtain ⟨front, last, rfl⟩ : ∃ front last, row = front ++ [last] := by
    rcases List.eq_nil_or_concat row with rfl | ⟨front, last, rfl⟩
    · cases hhead
    · exact ⟨front, last, List.concat_eq_append⟩
  rw [List.reverse_append, List.reverse_singleton, List.singleton_append, endsInPipe_cons_iff,
    List.head?_reverse] at hend
  obtain ⟨rfl, hfront⟩ := hend
  obtain ⟨rest, rfl⟩ : ∃ rest, front = '|' :: rest := by
    cases front with
    | nil => exact absurd hlength (by decide)
    | cons x rest =>
      obtain rfl := Option.some.inj hhead
      exact ⟨rest, rfl⟩
  rw [countPipes_concat_pipe hfront, countPipes_cons_of_ne (by decide), if_pos rfl]
  omega

/-! ### Separator rows -/

/-- The separator row of so many columns. -/
def separatorOf (columns : Nat) : List Char :=
  '|' :: (List.replicate columns [' ', '-', ' ', '|']).flatten

theorem separatorOf_succ (columns : Nat) :
    separatorOf (columns + 1) = '|' :: ' ' :: '-' :: ' ' :: separatorOf columns := rfl

theorem countPipes_separatorOf (columns : Nat) :
    countPipes (separatorOf columns) = columns + 1 := by
  induction columns with
  | zero => rfl
  | succ columns ih =>
    rw [separatorOf_succ]
    show 1 + (0 + (0 + (0 + countPipes (separatorOf columns)))) = columns + 1 + 1
    rw [ih]
    omega

/-- The columns of a separator row are all alike, so that the last of them may be taken off as
well. -/
theorem separatorOf_succ_eq_append (columns : Nat) :
    separatorOf (columns + 1) = separatorOf columns ++ [' ', '-', ' ', '|'] := by
  rw [separatorOf, List.replicate_succ', List.flatten_append, List.flatten_singleton,
    ← List.cons_append, separatorOf]

/-- A separator row is a table row. -/
theorem isPipeRow_separatorOf (columns : Nat) : isPipeRow (separatorOf (columns + 1)) = true := by
  have hreverse : (separatorOf (columns + 1)).reverse =
      '|' :: ' ' :: '-' :: ' ' :: (separatorOf columns).reverse := by
    rw [separatorOf_succ_eq_append, List.reverse_append]
    rfl
  have htrim : trim (separatorOf (columns + 1)) = separatorOf (columns + 1) := by
    have hleft : trimLeft (separatorOf (columns + 1)) = separatorOf (columns + 1) :=
      List.dropWhile_cons_of_neg (by decide)
    rw [trim, hleft, trimRight, hreverse, List.dropWhile_cons_of_neg (by decide), ← hreverse,
      List.reverse_reverse]
  rw [isPipeRow_eq, htrim, hreverse, separatorOf_succ]
  rfl

theorem splitPipes_columns (columns : Nat) :
    splitPipes (List.replicate columns [' ', '-', ' ', '|']).flatten =
      List.replicate columns [' ', '-', ' '] ++ [[]] := by
  induction columns with
  | zero => rfl
  | succ columns ih =>
    show splitPipes
        (' ' :: '-' :: ' ' :: '|' :: (List.replicate columns [' ', '-', ' ', '|']).flatten) =
      [' ', '-', ' '] :: (List.replicate columns [' ', '-', ' '] ++ [[]])
    rw [← ih]
    rfl

/-- A separator row separates the head of a table from its body. -/
theorem isTableSeparator_separatorOf (columns : Nat) :
    isTableSeparator (separatorOf (columns + 1)) = true := by
  have hcells : (List.replicate (columns + 1) [' ', '-', ' ']).all isSeparatorCell = true := by
    rw [List.all_eq_true]
    intro cell hcell
    rw [List.eq_of_mem_replicate hcell]
    decide
  have hlast : (2 ≤ (List.replicate (columns + 1) [' ', '-', ' '] ++ [[]]).length &&
      (List.replicate (columns + 1) [' ', '-', ' '] ++ [[]]).getLast? == some []) = true := by
    simp
  unfold isTableSeparator separatorOf
  simp only [List.head?_cons, beq_self_eq_true, if_true, List.drop_one, List.tail_cons,
    splitPipes_columns, hlast, List.dropLast_concat, hcells]

/-- The row that a scan puts behind a table head has as many pipes as the head. -/
theorem tableSeparatorFor_eq_some {previous : Option (List Char)} (hrow : isPipeRow head = true)
    (hseparator : isTableSeparator (trim head) = false)
    (hprevious : ∀ p, previous = some p → (trim p).head? ≠ some '|') :
    tableSeparatorFor head previous = some (separatorOf (countPipes head - 1)) := by
  have hcolumns : max 1 (countPipes head - 1) = countPipes head - 1 := by
    have hcount := two_le_countPipes_of_isPipeRow hrow
    omega
  have hany : previous.any (fun p => (trim p).head? == some '|') = false := by
    cases previous with
    | none => rfl
    | some p => simpa using hprevious p rfl
  unfold tableSeparatorFor
  simp only [hrow, hseparator, hany, countPipes_trim, hcolumns, Bool.not_true, Bool.or_false,
    Bool.false_eq_true, if_false]
  rfl

/-! ### Completed table heads -/

/-- A fragment stops behind the head of a table: no fence is open, the last line with ink is a row
that does not separate anything yet and does not follow a line that starts with a pipe, and a line
break ends it. -/
structure StopsAtTableHead (text head : List Char) : Prop where
  fence_eq : (firstScan text).fence = none
  lineBreak : startsWithLineBreak (FragmentParts.ofText text).trailing = true
  last_eq : (splitLines (FragmentParts.ofText text).core).getLast? = some head
  isRow : isPipeRow head = true
  not_separator : isTableSeparator (trim head) = false
  previous : ∀ line, (splitLines (FragmentParts.ofText text).core).dropLast.getLast? = some line →
    (trim line).head? ≠ some '|'

namespace StopsAtTableHead

variable {text : List Char} (h : StopsAtTableHead text head)

include h

theorem core_ne_nil : (FragmentParts.ofText text).core ≠ [] := by
  intro hcore
  have hlast := h.last_eq
  rw [hcore] at hlast
  obtain rfl := Option.some.inj hlast
  exact Bool.false_ne_true h.isRow

theorem separatorRow?_eq : separatorRow? (FragmentParts.ofText text).core
    (startsWithLineBreak (FragmentParts.ofText text).trailing) =
      some (separatorOf (countPipes head - 1)) := by
  rw [separatorRow?, h.lineBreak, if_pos rfl, List.getLastD_eq_getLast?, h.last_eq,
    Option.getD_some]
  exact tableSeparatorFor_eq_some h.isRow h.not_separator h.previous

theorem suffix_firstScan : (firstScan text).suffix = '\n' :: separatorOf (countPipes head - 1) := by
  have hfence := h.fence_eq
  rw [firstScan, fence_scanText] at hfence
  rw [firstScan, scanText_of_separatorRow?_eq_some hfence h.separatorRow?_eq]

end StopsAtTableHead

/-- A table head is completed with a line feed and a row that has as many unescaped pipes as the
head. That row is a table row and a separator, and the completed fragment is complete. -/
theorem completeFragment_of_table_head {text : String} (h : StopsAtTableHead text.toList head) :
    ∃ row, completionSuffix text = String.ofList ('\n' :: row) ∧ '\n' ∉ row ∧
      unescapedPipes row = unescapedPipes head ∧ isPipeRow row = true ∧
      isTableSeparator row = true ∧
      completeFragment (completeFragment text) = completeFragment text ∧
      completionSuffix (completeFragment text) = "" := by
  obtain ⟨columns, hcolumns⟩ : ∃ columns, countPipes head = columns + 2 :=
    ⟨countPipes head - 2, (Nat.sub_add_cancel (two_le_countPipes_of_isPipeRow h.isRow)).symm⟩
  have hsuffix := h.suffix_firstScan
  have hrow := h.separatorRow?_eq
  have hrescan := suffix_rescan_of_separatorRow? h.core_ne_nil h.fence_eq hrow
  rw [hcolumns] at hsuffix hrow
  refine ⟨separatorOf (columns + 1), ?_, newline_not_mem_separatorRow? hrow, ?_,
    isPipeRow_separatorOf columns, isTableSeparator_separatorOf columns, ?_, ?_⟩
  · rw [completionSuffix, suffix_completeText, hsuffix]
    rfl
  · rw [← countPipes_eq_unescapedPipes, ← countPipes_eq_unescapedPipes, countPipes_separatorOf,
      hcolumns]
  · exact (completesOnce_iff_suffix_rescan text).mpr hrescan
  · rw [completionSuffix_completeFragment, hrescan]

/-- A head with an escaped pipe, behind an open code span and in front of a carriage return. -/
theorem completeFragment_of_table_head_behind_code_span :
    let text := "a `b\n|x\\|y|z|\r\n"
    let head := "|x\\|y|z|".toList
    StopsAtTableHead text.toList head ∧ unescapedPipes head = 3 ∧
      completionSuffix text = "\n| - | - |" ∧
      completeFragment (completeFragment text) = completeFragment text ∧
      completionSuffix (completeFragment text) = "" := by
  intro text head
  have hhead : StopsAtTableHead text.toList head := by
    refine ⟨by cbv, by decide, by decide, by decide, by decide, ?_⟩
    have hprevious : (splitLines (FragmentParts.ofText text.toList).core).dropLast.getLast? =
        some "a `b".toList := by decide
    rw [hprevious]
    rintro _ ⟨⟩
    decide
  obtain ⟨row, -, -, -, -, -, honce, hnothing⟩ := completeFragment_of_table_head hhead
  exact ⟨hhead, by decide, by cbv, honce, hnothing⟩

end LiveMarkdown
