import LiveMarkdown.Proofs.Completion.Boundary
import LiveMarkdown.Proofs.Completion.Idempotence

/-!
# Line endings

A line of a text may end in a line feed alone or in a carriage return and a line feed. The scan
takes the carriage return off every line before it looks at the line, and the last line has no line
feed that one could stand before. The two looks at a text past its lines, at the line before a table
head and at the white space at the edges of a fragment, treat a carriage return as blank. So how the
lines of a text end has no part in what the scan reports, nor in what completes the text.

## Main definitions

* `AddsReturns`: a text with carriage returns put before some of its line feeds.
* `EndsAlike`: a line with or without a carriage return behind it.

## Main results

* `AddsReturns.exists_splitLines`: both texts have the same lines, but for the carriage returns.
* `AddsReturns.scanText_eq`: both texts have the same scan.
* `AddsReturns.ofText_eq`: both texts are cut at the same places.
* `scan_and_suffix_of_addsReturns`: the scan and the closers do not depend on how lines end.
-/

namespace LiveMarkdown

/-- The second text is the first one with a carriage return put before some of its line feeds. -/
inductive AddsReturns : List Char → List Char → Prop
  | nil : AddsReturns [] []
  | keep (c : Char) {s t : List Char} (h : AddsReturns s t) : AddsReturns (c :: s) (c :: t)
  | add {s t : List Char} (h : AddsReturns s t) : AddsReturns ('\n' :: s) ('\r' :: '\n' :: t)

/-- The second line is the first one, perhaps with a carriage return behind it. -/
def EndsAlike (line line' : List Char) : Prop :=
  line' = line ∨ line' = line ++ ['\r']

namespace EndsAlike

variable {line line' : List Char}

theorem cons (h : EndsAlike line line') (c : Char) : EndsAlike (c :: line) (c :: line') := by
  rcases h with rfl | rfl
  · exact Or.inl rfl
  · exact Or.inr rfl

/-- A carriage return at the end of a line is taken off. -/
theorem stripReturn_eq (h : EndsAlike line line') (hreturn : '\r' ∉ line) :
    (ScanState.stripReturn line').1 = (ScanState.stripReturn line).1 := by
  have hline : ScanState.stripReturn line = (line, true) :=
    ScanState.stripReturn_of_getLast?_ne fun hlast => hreturn (List.mem_of_getLast? hlast)
  rcases h with rfl | rfl
  · rfl
  · rw [hline, ScanState.stripReturn, List.getLast?_concat]
    exact List.dropLast_concat

/-- A carriage return at the end of a line is blank. -/
theorem trim_eq (h : EndsAlike line line') : trim line' = trim line := by
  rcases h with rfl | rfl
  · rfl
  rw [trim, trim, trimLeft, List.dropWhile_append]
  split
  · rename_i hblank
    rw [trimLeft, List.isEmpty_iff.mp hblank]
    rfl
  · rw [trimLeft, trimRight, trimRight, List.reverse_append, List.reverse_singleton,
      List.singleton_append, List.dropWhile_cons_of_pos (isBlankChar_of_ascii (by simp))]

end EndsAlike

/-! ### The scan -/

/-- Carriage returns at the ends of lines have no part in the scan of lines that are followed by
another one. -/
theorem ScanState.passLines_eq_of_endsAlike {lines lines' : List (List Char)}
    (h : List.Forall₂ EndsAlike lines lines') (hreturn : ∀ line ∈ lines, '\r' ∉ line)
    (st : ScanState) :
    st.passLines lines' = st.passLines lines := by
  induction h generalizing st with
  | nil => rfl
  | cons hline _ ih =>
    obtain ⟨hfirst, hrest⟩ := List.forall_mem_cons.mp hreturn
    rw [passLines, passLines, List.foldl_cons, List.foldl_cons, hline.stripReturn_eq hfirst]
    exact ih hrest _

theorem map_trim_eq_of_endsAlike {lines lines' : List (List Char)}
    (h : List.Forall₂ EndsAlike lines lines') : lines'.map trim = lines.map trim := by
  induction h with
  | nil => rfl
  | cons hline _ ih => rw [List.map_cons, List.map_cons, hline.trim_eq, ih]

/-- Blanks at the edges of the line before a table head do not matter. -/
theorem tableSeparatorFor_eq_of_map_trim_eq {previous previous' : Option (List Char)}
    (h : previous'.map trim = previous.map trim) (line : List Char) :
    tableSeparatorFor line previous' = tableSeparatorFor line previous := by
  have hany : ∀ p : Option (List Char), p.any (fun line => (trim line).head? == some '|') =
      (p.map trim).any (fun row => row.head? == some '|') := fun p => by cases p <;> rfl
  rw [tableSeparatorFor, tableSeparatorFor, hany, hany, h]

namespace AddsReturns

variable {text text' : List Char}

/-- Both texts have the same lines, but for the carriage returns at the ends of all lines before the
last. -/
theorem exists_splitLines (h : AddsReturns text text') :
    ∃ lines lines' last, splitLines text = lines ++ [last] ∧ splitLines text' = lines' ++ [last] ∧
      List.Forall₂ EndsAlike lines lines' := by
  induction h with
  | nil => exact ⟨[], [], [], rfl, rfl, .nil⟩
  | @keep c s t _ ih =>
    obtain ⟨lines, lines', last, hs, ht, hlines⟩ := ih
    by_cases hc : c = '\n'
    · subst hc
      exact ⟨[] :: lines, [] :: lines', last, by rw [splitLines, hs, List.cons_append],
        by rw [splitLines, ht, List.cons_append], .cons (Or.inl rfl) hlines⟩
    · cases hlines with
      | nil =>
        exact ⟨[], [], c :: last, splitLines_cons_of_ne hc hs, splitLines_cons_of_ne hc ht, .nil⟩
      | cons hline hlines =>
        exact ⟨_, _, last, splitLines_cons_of_ne hc hs, splitLines_cons_of_ne hc ht,
          .cons (hline.cons c) hlines⟩
  | @add s t _ ih =>
    obtain ⟨lines, lines', last, hs, ht, hlines⟩ := ih
    have hbreak : splitLines ('\n' :: t) = [] :: (lines' ++ [last]) := by rw [splitLines, ht]
    exact ⟨[] :: lines, ['\r'] :: lines', last, by rw [splitLines, hs, List.cons_append],
      splitLines_cons_of_ne (by decide) hbreak, .cons (Or.inr rfl) hlines⟩

/-- How the lines end has no part in what the scan of a text reports. -/
theorem scanText_eq (h : AddsReturns text text') (hreturn : '\r' ∉ text) (lineBreakFollows : Bool) :
    scanText text' lineBreakFollows = scanText text lineBreakFollows := by
  obtain ⟨lines, lines', last, htext, htext', hlines⟩ := h.exists_splitLines
  have hmem : ∀ line ∈ lines, '\r' ∉ line :=
    fun line hline hr => hreturn (subset_of_mem_splitLines (by simp [htext, hline]) hr)
  have hprevious : lines'.getLast?.map trim = lines.getLast?.map trim := by
    rw [← List.getLast?_map, ← List.getLast?_map, map_trim_eq_of_endsAlike hlines]
  refine scanText_congr ?_ ?_
  · rw [htext, htext', ScanState.scanLines_concat, ScanState.scanLines_concat,
      ScanState.passLines_eq_of_endsAlike hlines hmem]
  · rw [separatorRow?, separatorRow?, htext, htext', List.getLastD_concat, List.getLastD_concat,
      List.dropLast_concat, List.dropLast_concat, tableSeparatorFor_eq_of_map_trim_eq hprevious]

/-! ### The edges of a fragment -/

theorem mem_or_eq (h : AddsReturns text text') {c : Char} (hc : c ∈ text') :
    c ∈ text ∨ c = '\r' := by
  induction h with
  | nil => exact absurd hc List.not_mem_nil
  | keep d _ ih =>
    rcases List.mem_cons.mp hc with rfl | hc
    · exact Or.inl List.mem_cons_self
    · exact (ih hc).imp_left (List.mem_cons_of_mem d)
  | add _ ih =>
    rcases List.mem_cons.mp hc with rfl | hc
    · exact Or.inr rfl
    rcases List.mem_cons.mp hc with rfl | hc
    · exact Or.inl List.mem_cons_self
    · exact (ih hc).imp_left (List.mem_cons_of_mem _)

theorem getLast?_eq (h : AddsReturns text text') : text'.getLast? = text.getLast? := by
  induction h with
  | nil => rfl
  | keep c _ ih => rw [List.getLast?_cons, List.getLast?_cons, ih]
  | add _ ih =>
    rw [List.getLast?_cons, List.getLast?_cons, List.getLast?_cons, ih, Option.getD_some]

theorem exists_cons {c : Char} (hc : c ≠ '\n') {rest : List Char}
    (h : AddsReturns (c :: rest) text') :
    ∃ rest', text' = c :: rest' := by
  cases h with
  | keep => exact ⟨_, rfl⟩
  | add => exact absurd rfl hc

/-- A text that is put together from two takes its carriage returns in both. -/
theorem exists_append {front back : List Char} (h : AddsReturns (front ++ back) text') :
    ∃ front' back', text' = front' ++ back' ∧ AddsReturns front front' ∧
      AddsReturns back back' := by
  induction front generalizing text' with
  | nil => exact ⟨[], text', rfl, .nil, h⟩
  | cons c front ih =>
    cases h with
    | keep _ h =>
      obtain ⟨front', back', rfl, hfront, hback⟩ := ih h
      exact ⟨c :: front', back', rfl, hfront.keep c, hback⟩
    | add h =>
      obtain ⟨front', back', rfl, hfront, hback⟩ := ih h
      exact ⟨'\r' :: '\n' :: front', back', rfl, hfront.add, hback⟩

theorem forall_isAsciiWhiteSpace (h : AddsReturns text text')
    (hspace : ∀ c ∈ text, isAsciiWhiteSpace c = true) :
    ∀ c ∈ text', isAsciiWhiteSpace c = true := by
  intro c hc
  rcases h.mem_or_eq hc with hc | rfl
  · exact hspace c hc
  · decide

theorem startsWithLineBreak_eq (h : AddsReturns text text') (hreturn : '\r' ∉ text) :
    startsWithLineBreak text' = startsWithLineBreak text := by
  cases h with
  | nil => rfl
  | add h => rfl
  | @keep c s t h =>
    by_cases hc : c = '\n'
    · subst hc
      rfl
    · have hr : c ≠ '\r' := fun heq => hreturn (heq ▸ List.mem_cons_self)
      have hnone : ∀ cs, startsWithLineBreak (c :: cs) = false := by
        intro cs
        unfold startsWithLineBreak
        split <;> simp_all
      rw [hnone, hnone]

/-- Both texts are cut at the same places. -/
theorem ofText_eq (h : AddsReturns text text') :
    AddsReturns (FragmentParts.ofText text).core (FragmentParts.ofText text').core ∧
      AddsReturns (FragmentParts.ofText text).trailing (FragmentParts.ofText text').trailing := by
  have hcut := FragmentParts.isCut_ofText text
  by_cases hnil : (FragmentParts.ofText text).core = []
  · have hspace := FragmentParts.forall_isAsciiWhiteSpace_of_core_eq_nil hnil
    rw [FragmentParts.ofText_of_forall_isAsciiWhiteSpace hspace,
      FragmentParts.ofText_of_forall_isAsciiWhiteSpace (h.forall_isAsciiWhiteSpace hspace)]
    exact ⟨.nil, .nil⟩
  obtain ⟨x, xs, hcore⟩ := List.exists_cons_of_ne_nil hnil
  have hx : isAsciiWhiteSpace x = false := hcut.head x (by rw [hcore]; rfl)
  have hbreak : x ≠ '\n' := by
    rintro rfl
    exact absurd hx (by decide)
  rw [← FragmentParts.append_ofText text] at h
  obtain ⟨leading', rest', rfl, hleading, hrest⟩ := h.exists_append
  obtain ⟨core', trailing', rfl, hcore', htrailing⟩ := hrest.exists_append
  obtain ⟨xs', rfl⟩ := AddsReturns.exists_cons hbreak (hcore ▸ hcore')
  have hcut' : (FragmentParts.mk leading' (x :: xs') trailing').IsCut := by
    refine ⟨hleading.forall_isAsciiWhiteSpace hcut.leading,
      htrailing.forall_isAsciiWhiteSpace hcut.trailing, fun c hc => ?_, fun c hc => ?_⟩
    · obtain rfl := Option.some.inj hc
      exact hx
    · exact hcut.last c (hcore'.getLast?_eq.symm.trans hc)
  rw [hcut'.ofText_eq (List.cons_ne_nil x xs')]
  exact ⟨hcore', htrailing⟩

end AddsReturns

/-- How lines end does not matter: a text with carriage returns put before any of its line feeds has
the scan of the text, whether a line break follows or not, and is completed by the same closers. -/
theorem scan_and_suffix_of_addsReturns {text text' : String}
    (h : AddsReturns text.toList text'.toList) (hreturn : '\r' ∉ text.toList) :
    (∀ lineBreakFollows, scanText text'.toList lineBreakFollows =
      scanText text.toList lineBreakFollows) ∧ completionSuffix text' = completionSuffix text := by
  refine ⟨fun lineBreakFollows => h.scanText_eq hreturn lineBreakFollows, ?_⟩
  obtain ⟨hcore, htrailing⟩ := h.ofText_eq
  have hsubset :
      (FragmentParts.ofText text.toList).core ++ (FragmentParts.ofText text.toList).trailing ⊆
      text.toList := by
    conv_rhs => rw [← FragmentParts.append_ofText text.toList]
    exact List.subset_append_right _ _
  obtain ⟨hcoreSubset, htrailingSubset⟩ := List.append_subset.mp hsubset
  rw [completionSuffix, completionSuffix, suffix_completeText, suffix_completeText, firstScan,
    firstScan, htrailing.startsWithLineBreak_eq fun hr => hreturn (htrailingSubset hr),
    hcore.scanText_eq fun hr => hreturn (hcoreSubset hr)]

/-- A fence that closes, a table head behind it and a line break behind the head, where every line
end but the first has got its carriage return. -/
theorem scan_and_suffix_of_table_head_behind_fence :
    let text := "```\na\n```\n| *b | c |\n"
    let text' := "```\na\r\n```\r\n| *b | c |\r\n"
    AddsReturns text.toList text'.toList ∧ '\r' ∉ text.toList ∧
      (∀ lineBreakFollows, scanText text'.toList lineBreakFollows =
        scanText text.toList lineBreakFollows) ∧
      completionSuffix text' = completionSuffix text ∧ completionSuffix text = "\n| - | - |" := by
  intro text text'
  have h : AddsReturns text.toList text'.toList := by
    unfold text text'
    repeat constructor
  have hreturn : '\r' ∉ text.toList := by decide
  obtain ⟨hscan, hsuffix⟩ := scan_and_suffix_of_addsReturns h hreturn
  exact ⟨h, hreturn, hscan, hsuffix, by cbv⟩

end LiveMarkdown
