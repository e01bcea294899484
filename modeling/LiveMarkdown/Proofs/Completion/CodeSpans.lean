import LiveMarkdown.Proofs.Completion.Boundary
import LiveMarkdown.Proofs.Completion.ReadBack

/-!
# Contents of code spans

A code span is entered and left by its backticks, and nothing between them changes the state of the
scan. Behind the span, the scan could tell two contents apart in two ways only: by what stands
before a character and by the number of characters left on the line. But it looks back no further
than to the backtick that ends the span, and it counts only to see whether it is at the start of a
line. The line as a whole is judged by what stands before the span and behind it.

## Main definitions

* `codeSpanOf`: a code span with the given content.

## Main results

* `InlineState.scan_codeSpanOf`: a code span leaves open what was open before it.
* `InlineState.scan_congr_of_backtick`: what stands before a backtick does not matter behind it.
* `isPipeRow_congr_of_backtick`: nor does it matter for the shape of the line.
* `ScanState.scanMarkup_append_codeSpanOf`, `scanText_append_codeSpanOf`: the content of a code span
  does not matter for the line, and for the text.
-/

namespace LiveMarkdown

/-- A code span with so many backticks on either side of its content. -/
def codeSpanOf (run : Nat) (body : List Char) : List Char :=
  List.replicate run '`' ++ (body ++ List.replicate run '`')

section CodeSpanOf

variable {run : Nat} {body : List Char}

theorem getLast?_codeSpanOf (hrun : 0 < run) (body : List Char) :
    (codeSpanOf run body).getLast? = some '`' := by
  rw [codeSpanOf, List.getLast?_append, List.getLast?_append, List.getLast?_replicate,
    if_neg (Nat.ne_of_gt hrun), Option.some_or, Option.some_or]

theorem head?_codeSpanOf_append (hrun : 0 < run) (body after : List Char) :
    (codeSpanOf run body ++ after).head? = some '`' := by
  rw [codeSpanOf, List.append_assoc, List.head?_append, List.head?_replicate,
    if_neg (Nat.ne_of_gt hrun), Option.some_or]

theorem newline_not_mem_codeSpanOf (hbody : '\n' ∉ body) (run : Nat) :
    '\n' ∉ codeSpanOf run body := by
  simp [codeSpanOf, hbody]

theorem exists_codeSpanOf_eq_concat (hrun : 0 < run) (body : List Char) :
    ∃ front, codeSpanOf run body = front ++ ['`'] :=
  List.getLast?_eq_some_iff.mp (getLast?_codeSpanOf hrun body)

end CodeSpanOf

/-! ### Looking back to a backtick -/

theorem isEscapedBy_append_backtick (front before : List Char) :
    isEscapedBy (front ++ '`' :: before) = isEscapedBy front := by
  have hrun : runLength '\\' (front ++ '`' :: before) = runLength '\\' front := by
    rw [runLength, runLength, List.takeWhile_append, List.takeWhile_cons_of_neg (by decide),
      List.append_nil]
    split
    · exact Eq.symm ‹_›
    · rfl
  rw [isEscapedBy, isEscapedBy, hrun]

theorem head?_append_backtick (front before : List Char) :
    (front ++ '`' :: before).head? = (front ++ ['`']).head? := by
  cases front <;> rfl

namespace InlineState

variable {line line' : InlineLine} {st : InlineState} {before before' ahead : List Char} {c : Char}

section Congr

variable (hfinal : line'.final = line.final) (hcount : ahead.length + 1 < line.contentLength)
  (hcount' : ahead.length + 1 < line'.contentLength)

include hcount hcount'

theorem stepDollars_congr (hhead : before'.head? = before.head?) :
    st.stepDollars line' before' ahead = st.stepDollars line before ahead := by
  simp only [stepDollars, hhead, beq_eq_false_iff_ne.mpr (Nat.ne_of_lt hcount),
    beq_eq_false_iff_ne.mpr (Nat.ne_of_lt hcount')]

/-- Away from the start of the content, a bracket looks back only to tell an image from a link. -/
theorem stepOpenBracket_congr (front : List Char) :
    st.stepOpenBracket line' (front ++ '`' :: before') ahead =
      st.stepOpenBracket line (front ++ '`' :: before) ahead := by
  simp only [stepOpenBracket, beq_eq_false_iff_ne.mpr (Nat.ne_of_lt hcount),
    beq_eq_false_iff_ne.mpr (Nat.ne_of_lt hcount'), Bool.and_false, Bool.false_eq_true, if_false]
  cases front with
  | nil => rfl
  | cons x front =>
    by_cases hx : x = '!'
    · subst hx
      simp only [List.cons_append, isEscapedBy_append_backtick]
    · simp [hx]

include hfinal

/-- A step behind a backtick does not depend on what stands before it. -/
theorem step_congr_of_backtick (front : List Char) :
    st.step line' (front ++ '`' :: before') c ahead =
      st.step line (front ++ '`' :: before) c ahead := by
  have hhead : (front ++ '`' :: before').head? = (front ++ '`' :: before).head? := by
    rw [head?_append_backtick, ← head?_append_backtick front before]
  unfold step
  split
  · rfl
  · simp only [hhead]
  · rfl
  · unfold stepMarkup
    split
    · rfl
    · simp only [stepBackticks, hfinal]
    · exact stepDollars_congr hcount hcount' hhead
    · exact stepOpenBracket_congr hcount hcount' front
    · simp only [stepCloseBracket, hfinal]
    · rfl
    · split
      · simp only [stepDelimiters, hhead, hfinal]
      · rfl

end Congr

/-- What stands before a backtick does not matter for the scan behind it, away from the start of the
content. -/
theorem scan_congr_of_backtick (hfinal : line'.final = line.final)
    (hcount : ahead.length < line.contentLength) (hcount' : ahead.length < line'.contentLength)
    (front : List Char) :
    scan line' st (front ++ '`' :: before') ahead =
      scan line st (front ++ '`' :: before) ahead := by
  generalize hn : ahead.length = n at hcount hcount'
  induction n using Nat.strong_induction_on generalizing st front ahead with
  | _ n ih =>
    cases ahead with
    | nil => rw [scan_nil, scan_nil]
    | cons c ahead =>
      rw [List.length_cons] at hn
      have hstep : st.step line' (front ++ '`' :: before') c ahead =
          st.step line (front ++ '`' :: before) c ahead :=
        step_congr_of_backtick hfinal (hn ▸ hcount) (hn ▸ hcount') front
      have hshorter : (ahead.drop (st.step line (front ++ '`' :: before) c ahead).2).length <
          n := by
        rw [List.length_drop]
        omega
      rw [scan_cons, scan_cons, hstep]
      simpa only [List.append_assoc, List.cons_append] using
        ih _ hshorter ((ahead.take (st.step line (front ++ '`' :: before) c ahead).2).reverse ++
          c :: front) rfl (hshorter.trans hcount) (hshorter.trans hcount')

/-- Inside a code span everything but a backtick is text. -/
theorem scan_codeSpan_append {body : List Char} (hbody : '`' ∉ body) (line : InlineLine)
    (before after : List Char) {run : Nat} {below : List OpenConstruct}
    (hst : st.stack = .codeSpan run :: below) :
    scan line st before (body ++ after) = scan line st (body.reverse ++ before) after := by
  induction body generalizing before with
  | nil => rfl
  | cons c body ih =>
    have hstep : st.step line before c (body ++ after) = (st, 0) := by
      rw [step, hst]
      exact if_neg (List.ne_of_not_mem_cons hbody).symm
    rw [List.cons_append, scan_cons, hstep, List.reverse_cons, List.append_assoc,
      List.singleton_append]
    exact ih (List.not_mem_of_not_mem_cons hbody) (c :: before)

/-- A code span leaves open what was open before it. -/
theorem scan_codeSpanOf (hst : ∀ x ∈ st.stack.head?, x.isLiteral = false) (line : InlineLine)
    (before : List Char) {run : Nat} (hrun : 0 < run) {body : List Char} (hne : body ≠ [])
    (hbody : '`' ∉ body) {after : List Char} (hafter : after.head? ≠ some '`') :
    scan line st before (codeSpanOf run body ++ after) =
      scan line st ((codeSpanOf run body).reverse ++ before) after := by
  have htext : codeSpanOf run body ++ after =
      List.replicate run '`' ++ (body ++ (List.replicate run '`' ++ after)) := by
    simp only [codeSpanOf, List.append_assoc]
  have hinner : (body ++ (List.replicate run '`' ++ after)).head? ≠ some '`' := by
    rw [head?_append_of_ne_nil hne]
    exact fun hhead => hbody (List.mem_of_head? hhead)
  have hbefore : (codeSpanOf run body).reverse ++ before =
      List.replicate run '`' ++ (body.reverse ++ (List.replicate run '`' ++ before)) := by
    simp only [codeSpanOf, List.reverse_append, List.reverse_replicate, List.append_assoc]
  rw [htext, scan_openingTicks line hst before hrun (List.append_ne_nil_of_left_ne_nil hne _)
    hinner, scan_codeSpan_append hbody line _ _ rfl, scan_closingTicks line _ _ _ _ hrun hafter,
    hbefore]

end InlineState

/-! ### The line with the span -/

theorem trimLeft_append {cs : List Char} (h : trimLeft cs ≠ []) (more : List Char) :
    trimLeft (cs ++ more) = trimLeft cs ++ more := by
  rw [trimLeft, List.dropWhile_append, if_neg (by simpa [trimLeft] using h)]
  rfl

theorem trimRight_append_backtick (front after : List Char) :
    trimRight (front ++ '`' :: after) = front ++ '`' :: trimRight after := by
  have hreverse : (front ++ '`' :: after).reverse = after.reverse ++ '`' :: front.reverse := by simp
  rw [trimRight, trimRight, hreverse, List.dropWhile_append]
  split
  · rename_i hblank
    rw [List.dropWhile_cons_of_neg (by decide), List.isEmpty_iff.mp hblank]
    simp
  · simp

/-- Whether a row, read backwards, ends in a pipe that no backslash stands before. -/
def endsInPipe : List Char → Bool
  | '|' :: '\\' :: _ => false
  | '|' :: _ => true
  | _ => false

theorem isPipeRow_eq (line : List Char) :
    isPipeRow line =
      (2 ≤ (trim line).length && (trim line).head? == some '|' && endsInPipe (trim line).reverse) :=
        rfl

theorem endsInPipe_append_backtick (cs before : List Char) :
    endsInPipe (cs ++ '`' :: before) = endsInPipe (cs ++ ['`']) := by
  cases cs with
  | nil => rfl
  | cons x cs =>
    by_cases hx : x = '|'
    · subst hx
      cases cs with
      | nil => rfl
      | cons y cs =>
        by_cases hy : y = '\\'
        · subst hy
          rfl
        · simp [endsInPipe, hy]
    · simp [endsInPipe, hx]

/-- Whether a line is a table row does not depend on what stands between its start and a
backtick. -/
theorem isPipeRow_congr_of_backtick {start : List Char} (hstart : trimLeft start ≠ [])
    (front front' after : List Char) :
    isPipeRow (start ++ (front' ++ '`' :: after)) =
      isPipeRow (start ++ (front ++ '`' :: after)) := by
  have hrow : ∀ cs, isPipeRow (start ++ (cs ++ '`' :: after)) =
      ((trimLeft start).head? == some '|' && endsInPipe ((trimRight after).reverse ++ ['`'])) := by
    intro cs
    have htrim : trim (start ++ (cs ++ '`' :: after)) =
        trimLeft start ++ (cs ++ '`' :: trimRight after) := by
      rw [trim, trimLeft_append hstart, ← List.append_assoc, trimRight_append_backtick,
        List.append_assoc]
    have hlength : 2 ≤ (trimLeft start ++ (cs ++ '`' :: trimRight after)).length := by
      have hpos := List.length_pos_iff.mpr hstart
      simp only [List.length_append, List.length_cons]
      omega
    have hreverse : (trimLeft start ++ (cs ++ '`' :: trimRight after)).reverse =
        (trimRight after).reverse ++ '`' :: (trimLeft start ++ cs).reverse := by simp
    rw [isPipeRow_eq, htrim, head?_append_of_ne_nil hstart, hreverse, endsInPipe_append_backtick,
      decide_eq_true hlength, Bool.true_and]
  rw [hrow, hrow]

theorem trimLeft_ne_nil_of_plainEnd {line : List Char} (hplain : PlainEnd line) (hne : line ≠ []) :
    trimLeft line ≠ [] := by
  obtain ⟨c, hc, hplainC⟩ := hplain.exists_mem hne
  rw [trimLeft, ne_eq, List.dropWhile_eq_nil_iff]
  exact fun hblank => absurd (hblank c hc) (by simp [isBlankChar_of_isAlphanum hplainC])

/-- What may stand between the backticks of a code span on one line. -/
structure IsSpanBody (body : List Char) : Prop where
  ne_nil : body ≠ []
  backtick_not_mem : '`' ∉ body
  newline_not_mem : '\n' ∉ body

namespace ScanState

variable {st : ScanState} {i : InlineState} {line after body body' : List Char} {run : Nat}

/-- If no literal construct is open at the end of a text, none is open there before more text. -/
theorem isLiteral_head?_scan_lineView_false (hi : (st.startOf line).scan (lineView line true)
      (markersBefore line) (containerLead line).rest = i)
    (hplain : PlainEnd line) (hopen : ∀ x ∈ i.stack.head?, x.isLiteral = false) :
    ∀ x ∈ ((st.startOf line).scan (lineView line false) (markersBefore line)
      (containerLead line).rest).stack.head?, x.isLiteral = false := by
  by_cases hcut : ∃ cs, cs <:+ (containerLead line).rest ∧ IsCutTask (lineView line true) cs
  · obtain ⟨cs, hcs, hmarker⟩ := hcut
    have hstart : st.startOf line = .empty := by
      have hitem : (containerLead line).listItem = true := hmarker.1
      rw [startOf, hitem, Bool.true_or, if_pos rfl]
    -- whether the text ends there is no part of what a cut task marker is
    have hcut : IsCutTask (lineView line false) cs := hmarker
    obtain ⟨image, footnote, hstack⟩ :=
      (InlineState.scan_of_isCutTask (markersBefore line) rfl hcs hcut).2 rfl
    rw [hstart, hstack]
    intro x hx
    obtain rfl := Option.some.inj hx
    rfl
  · rw [scan_lineView_false st hplain fun cs hcs hmarker => hcut ⟨cs, hcs, hmarker⟩, hi]
    exact hopen

/-- A line with a code span is scanned from its start to the span, through the span, and on from its
last backtick. -/
theorem exists_scanMarkup_append_codeSpanOf (hplain : PlainEnd line) (hne : line ≠ [])
    (hscan : st.scanMarkup line true = ⟨i, none⟩) (hopen : ∀ x ∈ i.stack.head?, x.isLiteral = false)
    (hrun : 0 < run) (hbody : IsSpanBody body) (hafter : after.head? ≠ some '`') (final : Bool) :
    ∃ before, after.length <
      (lineView (line ++ (codeSpanOf run body ++ after)) final).contentLength ∧
      st.scanMarkup (line ++ (codeSpanOf run body ++ after)) final =
        if !final &&
          (isAtxHeading (lineContent line) || isPipeRow (line ++ (codeSpanOf run body ++ after)))
        then empty
        else ⟨((st.startOf line).scan (lineView line false) (markersBefore line)
          (containerLead line).rest).scan
          (lineView (line ++ (codeSpanOf run body ++ after)) final) ('`' :: before) after,
          none⟩ := by
  obtain ⟨hfence, hi⟩ := scan_of_scanMarkup_eq hplain hne hscan
  have htop := isLiteral_head?_scan_lineView_false hi hplain hopen
  have hhead := head?_codeSpanOf_append hrun body after
  have hlead : containerLead (line ++ (codeSpanOf run body ++ after)) =
      { containerLead line with rest := (containerLead line).rest ++
        (codeSpanOf run body ++ after) } := by
    refine (containerLead_append hplain hne ?_).resolve_right ?_
    · intro x hx
      obtain rfl := Option.some.inj (hhead.symm.trans hx)
      decide
    · rintro ⟨rest, heq | heq, -⟩ <;>
      · rw [heq] at hhead
        exact absurd hhead (by simp)
  have hview := continues_lineView_append hplain hne hlead false final
  have hcolon : ((codeSpanOf run body ++ after).dropWhile isShortcodeChar).head? ≠ some ':' := by
    obtain ⟨more, hmore⟩ := List.head?_eq_some_iff.mp hhead
    rw [hmore, List.dropWhile_cons_of_neg (by decide)]
    simp
  obtain ⟨front, hfront⟩ := exists_codeSpanOf_eq_concat hrun body
  refine ⟨front.reverse ++ ((containerLead line).rest.reverse ++ markersBefore line), ?_, ?_⟩
  · rw [hview.contentLength_eq, List.length_append, hfront, List.length_append,
      List.length_singleton]
    omega
  · rw [scanMarkup_append_eq hplain hne hlead st hfence final,
      InlineState.scan_append _ _ (plainEnd_rest hplain) hview
        (fun _ _ _ => ⟨rfl, '`', hhead, by decide⟩) hcolon,
      InlineState.scan_codeSpanOf htop _ _ hrun hbody.ne_nil hbody.backtick_not_mem hafter, hfront,
      List.reverse_append]
    rfl

/-- The content of a code span does not matter for its line. -/
theorem scanMarkup_append_codeSpanOf (hplain : PlainEnd line) (hne : line ≠ [])
    (hscan : st.scanMarkup line true = ⟨i, none⟩) (hopen : ∀ x ∈ i.stack.head?, x.isLiteral = false)
    (hrun : 0 < run) (hbody : IsSpanBody body) (hbody' : IsSpanBody body')
    (hafter : after.head? ≠ some '`') (final : Bool) :
    st.scanMarkup (line ++ (codeSpanOf run body' ++ after)) final =
      st.scanMarkup (line ++ (codeSpanOf run body ++ after)) final := by
  have hrow : isPipeRow (line ++ (codeSpanOf run body' ++ after)) =
      isPipeRow (line ++ (codeSpanOf run body ++ after)) := by
    obtain ⟨front, hfront⟩ := exists_codeSpanOf_eq_concat hrun body
    obtain ⟨front', hfront'⟩ := exists_codeSpanOf_eq_concat hrun body'
    rw [hfront, hfront', List.append_assoc, List.append_assoc]
    exact isPipeRow_congr_of_backtick (trimLeft_ne_nil_of_plainEnd hplain hne) front front' after
  obtain ⟨before, hcount, hspan⟩ :=
    exists_scanMarkup_append_codeSpanOf hplain hne hscan hopen hrun hbody hafter final
  obtain ⟨before', hcount', hspan'⟩ :=
    exists_scanMarkup_append_codeSpanOf hplain hne hscan hopen hrun hbody' hafter final
  generalize (st.startOf line).scan (lineView line false) (markersBefore line)
    (containerLead line).rest = inner at hspan hspan'
  have hbehind :
      inner.scan (lineView (line ++ (codeSpanOf run body' ++ after)) final) ('`' :: before') after =
      inner.scan (lineView (line ++ (codeSpanOf run body ++ after)) final) ('`' :: before) after :=
    InlineState.scan_congr_of_backtick (by rfl) hcount hcount' []
  rw [hspan, hspan', hrow, hbehind]

end ScanState

/-! ### The text with the span -/

theorem splitLines_append_of_not_mem {front cs first : List Char} {more : List (List Char)}
    (hfront : '\n' ∉ front) (hcs : splitLines cs = first :: more) :
    splitLines (front ++ cs) = (front ++ first) :: more := by
  induction front with
  | nil => exact hcs
  | cons c front ih =>
    exact splitLines_cons_of_ne (List.ne_of_not_mem_cons hfront).symm
      (ih (List.not_mem_of_not_mem_cons hfront))

/-- The first line of a text starts as the text does. -/
theorem head?_of_splitLines_eq_cons {cs first : List Char} {more : List (List Char)}
    (hcs : splitLines cs = first :: more) : first = [] ∨ first.head? = cs.head? := by
  cases cs with
  | nil =>
    obtain ⟨rfl, -⟩ := List.cons.inj hcs
    exact Or.inl rfl
  | cons c cs =>
    by_cases hc : c = '\n'
    · subst hc
      exact Or.inl (List.cons.inj hcs).1.symm
    · obtain ⟨line, lines, hlines⟩ := List.exists_cons_of_ne_nil (splitLines_ne_nil cs)
      rw [splitLines_cons_of_ne hc hlines] at hcs
      obtain ⟨rfl, -⟩ := List.cons.inj hcs
      exact Or.inr rfl

theorem IsLastLine.splitLines_append {text last : List Char} {lines : List (List Char)}
    (h : IsLastLine text lines last) (more : List Char) :
    splitLines (text ++ more) = lines ++ splitLines (last ++ more) := by
  obtain ⟨-, ⟨rfl, rfl⟩ | ⟨earlier, rfl, rfl⟩⟩ := h
  · rfl
  · rw [List.append_assoc, List.cons_append, splitLines_append_newline]

/-- A carriage return is stripped from the part of a line behind a backtick. -/
theorem ScanState.stripReturn_append {front : List Char} (hfront : front.getLast? = some '`')
    (rest : List Char) :
    stripReturn (front ++ rest) = (front ++ (stripReturn rest).1, (stripReturn rest).2) := by
  by_cases hreturn : rest.getLast? = some '\r'
  · have hne : rest ≠ [] := by
      rintro rfl
      exact absurd hreturn (by simp)
    have hlast : (front ++ rest).getLast? = some '\r' := by
      rw [List.getLast?_append, hreturn, Option.some_or]
    simp only [stripReturn, hlast, hreturn, List.dropLast_append_of_ne_nil hne]
  · have hlast : (front ++ rest).getLast? ≠ some '\r' := by
      rw [List.getLast?_append]
      cases hrest : rest.getLast? with
      | none => rw [Option.none_or, hfront]; decide
      | some x => rw [Option.some_or, ← hrest]; exact hreturn
    rw [stripReturn_of_getLast?_ne hlast, stripReturn_of_getLast?_ne hreturn]

theorem ScanState.head?_stripReturn {line : List Char} {c : Char}
    (h : (stripReturn line).1.head? = some c) :
    line.head? = some c := by
  unfold stripReturn at h
  split at h
  · rename_i hlast
    rw [← List.dropLast_append_getLast? '\r' hlast, List.head?_append, h, Option.some_or]
  · exact h

/-- The content of a code span does not matter for the text, if the span stands behind a letter or a
digit and no literal construct is open there. -/
theorem scanText_append_codeSpanOf {text : List Char} {c : Char} (htext : text.getLast? = some c)
    (hc : c.isAlphanum = true) (hfence : (scanText text false).fence = none)
    (hopen : ∀ x ∈ (scanText text false).openConstructs.getLast?, x.isLiteral = false) {run : Nat}
    (hrun : 0 < run) {body body' : List Char} (hbody : IsSpanBody body) (hbody' : IsSpanBody body')
    {after : List Char} (hafter : after.head? ≠ some '`') :
    scanText (text ++ (codeSpanOf run body' ++ after)) false =
      scanText (text ++ (codeSpanOf run body ++ after)) false := by
  rw [fence_scanText] at hfence
  rw [scanText_of_separatorRow?_eq_none hfence rfl, List.getLast?_reverse] at hopen
  obtain ⟨lines, last, hstops⟩ := exists_stopsPlain htext hc hfence
  obtain ⟨first, more, hlines⟩ := List.exists_cons_of_ne_nil (splitLines_ne_nil after)
  have hfirst : (ScanState.stripReturn first).1.head? ≠ some '`' := by
    intro hhead
    have hhead := ScanState.head?_stripReturn hhead
    rcases head?_of_splitLines_eq_cons hlines with rfl | heq
    · exact absurd hhead (by simp)
    · exact hafter (heq.symm.trans hhead)
  have hsplit : ∀ body, IsSpanBody body → splitLines (text ++ (codeSpanOf run body ++ after)) =
      lines ++ ((last ++ codeSpanOf run body) ++ first) :: more := by
    intro body hbody
    rw [hstops.isLastLine.splitLines_append, ← List.append_assoc,
      splitLines_append_of_not_mem _ hlines]
    exact List.not_mem_append hstops.isLastLine.newline_not_mem
      (newline_not_mem_codeSpanOf hbody.newline_not_mem run)
  have hstrip : ∀ body, ScanState.stripReturn ((last ++ codeSpanOf run body) ++ first) =
      (last ++ (codeSpanOf run body ++ (ScanState.stripReturn first).1),
        (ScanState.stripReturn first).2) := by
    intro body
    rw [ScanState.stripReturn_append, List.append_assoc]
    rw [List.getLast?_append, getLast?_codeSpanOf hrun, Option.some_or]
  have hline : ∀ final, (ScanState.empty.passLines lines).scanLine
        (last ++ (codeSpanOf run body' ++ (ScanState.stripReturn first).1)) final =
      (ScanState.empty.passLines lines).scanLine
        (last ++ (codeSpanOf run body ++ (ScanState.stripReturn first).1)) final := by
    intro final
    rw [ScanState.scanLine, ScanState.scanLine, hstops.fence_eq]
    exact ScanState.scanMarkup_append_codeSpanOf hstops.plainEnd hstops.ne_nil hstops.scanMarkup_eq
      hopen hrun hbody hbody' hfirst final
  refine scanText_congr ?_ rfl
  rw [hsplit body hbody, hsplit body' hbody', ScanState.scanLines_append _ _ (List.cons_ne_nil _ _),
    ScanState.scanLines_append _ _ (List.cons_ne_nil _ _)]
  cases more with
  | nil =>
    rw [ScanState.scanLines, ScanState.scanLines, hstrip, hstrip]
    exact hline _
  | cons next more =>
    change ((ScanState.empty.passLines lines).scanLine _ false).scanLines (next :: more) =
      ((ScanState.empty.passLines lines).scanLine _ false).scanLines (next :: more)
    rw [hstrip, hstrip, hline]

end LiveMarkdown
