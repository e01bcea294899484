import Mathlib
import LiveMarkdown.Proofs.Completion.Closers

/-!
# Completed texts

A text that stops at a letter or a digit, outside fences, is completed by the closers of what it
leaves open, and the completed text leaves nothing open. The closers follow on the last line, but
for a display formula on a line of its own, whose closer starts a line.

## Main results

* `ScanState.scanLines_append_suffix`: the scan of a completed text.
* `scanText_append_suffix`: without tildes, plus and equals signs, every completed text is complete.
-/

namespace LiveMarkdown

variable {stack below : List OpenConstruct}

/-! ### The characters of closers -/

theorem OpenConstruct.of_mem_closer {construct : OpenConstruct} {x : Char}
    (h : x ∈ construct.closer) :
    x ≠ '\r' ∧ isSpaceOrTab x = false ∧ (x = '\n' → construct = .math true true) := by
  cases construct with
  | delimiter marker =>
    obtain rfl := List.eq_of_mem_replicate h
    cases marker <;> decide
  | codeSpan run =>
    obtain rfl := List.eq_of_mem_replicate h
    exact ⟨by decide, by decide, fun hx => absurd hx (by decide)⟩
  | math display ownLine =>
    have hx : x = '$' ∨ x = '\n' ∧ OpenConstruct.math display ownLine = .math true true := by
      cases display <;> cases ownLine <;> simpa [closer, or_comm] using h
    rcases hx with rfl | ⟨rfl, hconstruct⟩
    · exact ⟨by decide, by decide, fun hx => absurd hx (by decide)⟩
    · exact ⟨by decide, by decide, fun _ => hconstruct⟩
  | linkLabel image footnote =>
    have hx : x = ']' ∨ x = '(' ∨ x ∈ incompleteLinkAddress ∨ x = ')' := by
      cases footnote with
      | true => exact Or.inl (List.mem_singleton.mp h)
      | false => simpa [closer] using h
    rcases hx with rfl | rfl | hx | rfl
    · exact ⟨by decide, by decide, fun hx => absurd hx (by decide)⟩
    · exact ⟨by decide, by decide, fun hx => absurd hx (by decide)⟩
    · rcases of_mem_incompleteLinkAddress hx with hx | rfl | rfl
      · refine ⟨ne_of_isAlphanum hx (by decide), ?_,
          fun heq => absurd heq (ne_of_isAlphanum hx (by decide))⟩
        simp [isSpaceOrTab, ne_of_isAlphanum hx]
      · exact ⟨by decide, by decide, fun hx => absurd hx (by decide)⟩
      · exact ⟨by decide, by decide, fun hx => absurd hx (by decide)⟩
    · exact ⟨by decide, by decide, fun hx => absurd hx (by decide)⟩
  | linkDestination depth =>
    obtain rfl := List.eq_of_mem_replicate h
    exact ⟨by decide, by decide, fun hx => absurd hx (by decide)⟩

theorem of_mem_closersOf {x : Char} (h : x ∈ closersOf stack) :
    x ≠ '\r' ∧ isSpaceOrTab x = false ∧ (x = '\n' → .math true true ∈ stack) := by
  obtain ⟨construct, hmem, hx⟩ := List.mem_flatMap.mp h
  obtain ⟨hreturn, hspace, hnewline⟩ := OpenConstruct.of_mem_closer hx
  exact ⟨hreturn, hspace, fun heq => hnewline heq ▸ hmem⟩

/-- No closer starts with a digit or a point. -/
theorem of_head?_closersOf {x : Char} (h : (closersOf stack).head? = some x) :
    x.isDigit = false ∧ x ≠ '.' := by
  induction stack with
  | nil => exact absurd h (by simp)
  | cons construct below ih =>
    rw [closersOf_cons] at h
    cases construct with
    | delimiter marker =>
      obtain rfl : marker.char = x := by
        cases marker <;> exact Option.some.inj h
      cases marker <;> decide
    | codeSpan run =>
      cases run with
      | zero => exact ih h
      | succ run =>
        obtain rfl := Option.some.inj h
        decide
    | math display ownLine =>
      cases display <;> cases ownLine <;>
      · obtain rfl := Option.some.inj h
        decide
    | linkLabel image footnote =>
      cases footnote <;>
      · obtain rfl := Option.some.inj h
        decide
    | linkDestination depth =>
      cases depth with
      | zero => exact ih h
      | succ depth =>
        obtain rfl := Option.some.inj h
        decide

/-- Closers do not end a shortcode. -/
theorem dropWhile_closersOf_head?_ne (stack : List OpenConstruct) :
    ((closersOf stack).dropWhile isShortcodeChar).head? ≠ some ':' := by
  induction stack with
  | nil => simp
  | cons construct below ih =>
    rw [closersOf_cons, List.dropWhile_append]
    split
    · exact ih
    · rename_i hne
      rw [head?_append_of_ne_nil (by simpa using hne)]
      cases construct with
      | delimiter marker => cases marker <;> decide
      | codeSpan run =>
        cases run with
        | zero => decide
        | succ run =>
          rw [OpenConstruct.closer, List.replicate_succ, List.dropWhile_cons_of_neg (by decide),
            List.head?_cons]
          decide
      | math display ownLine => cases display <;> cases ownLine <;> decide
      | linkLabel image footnote => cases image <;> cases footnote <;> decide
      | linkDestination depth =>
        cases depth with
        | zero => decide
        | succ depth =>
          rw [OpenConstruct.closer, List.replicate_succ, List.dropWhile_cons_of_neg (by decide),
            List.head?_cons]
          decide

/-! ### The scan of a completed text -/

/-- A line that starts with a dollar sign or a pipe is text, and what is open before it stays
open. -/
theorem ScanState.exists_scanMarkup_cons {c : Char} (hc : c = '$' ∨ c = '|') (i : InlineState)
    (rest : List Char) :
    ∃ view, ScanState.scanMarkup ⟨i, none⟩ (c :: rest) true =
      ⟨InlineState.scan view i [] (c :: rest), none⟩ := by
  have hmarker : afterListMarker? (c :: rest) = none := by
    rw [afterListMarker?_cons]
    rcases hc with rfl | rfl <;> rfl
  have hlead : containerLead (c :: rest) = ⟨c :: rest, 0, false⟩ := by
    rcases hc with rfl | rfl <;> exact ContainerLead.read_of_none (by decide) rfl hmarker
  have hcontent : lineContent (c :: rest) = c :: rest := by
    rw [lineContent, hlead]
    rcases hc with rfl | rfl <;> rfl
  refine ⟨lineView (c :: rest) true, ?_⟩
  rw [scanMarkup_eq, startOf, markersBefore, hcontent, hlead, Nat.sub_self]
  rcases hc with rfl | rfl <;> rfl

section

variable {text last : List Char} {lines : List (List Char)} {c : Char}
  (h : StopsPlain text lines last) (htext : text.getLast? = some c) (hc : c.isAlphanum = true)

include h

/-- The closer of a display formula on a line of its own is the start of such a line. -/
theorem StopsPlain.scanLines_append_closersOf_of_ownLine
    (hinline : (ScanState.empty.scanLines (splitLines text)).inline =
      ⟨.math true true :: below, [], false⟩)
    (hbelow : ∀ x ∈ below, x.isLiteral = false) (hcount : ClosersCount below) :
    ScanState.empty.scanLines (splitLines (text ++ closersOf (.math true true :: below))) =
      .empty := by
  have hclosers : closersOf (.math true true :: below) = '\n' :: '$' :: '$' :: closersOf below :=
    rfl
  have hown : .math true true ∈ (ScanState.empty.scanLines (splitLines text)).inline.stack := by
    rw [hinline]
    exact List.mem_cons_self
  have hnewline : '\n' ∉ '$' :: '$' :: closersOf below := by
    simp only [List.mem_cons, not_or]
    refine ⟨by decide, by decide, fun hmem => ?_⟩
    exact absurd (hbelow _ ((of_mem_closersOf hmem).2.2 rfl)) (by decide)
  have hreturn : ('$' :: '$' :: closersOf below).getLast? ≠ some '\r' := by
    intro hlast
    have hmem : '\r' ∈ closersOf (.math true true :: below) :=
      List.mem_cons_of_mem _ (List.mem_of_getLast? hlast)
    exact (of_mem_closersOf hmem).1 rfl
  obtain ⟨view, hview⟩ := ScanState.exists_scanMarkup_cons (Or.inl rfl)
    ⟨.math true true :: below, [], false⟩ ('$' :: closersOf below)
  rw [hclosers, h.scanLines_append_newline hown hnewline hreturn, hinline, hview,
    InlineState.scan_closersOf_displayMath view _ _ hbelow,
    InlineState.scan_closersOf_of_not_literal view _ _ hbelow hcount (by decide)]
  rfl

include htext hc in
/-- All other closers follow on the same line. -/
theorem StopsPlain.scanLines_append_closersOf
    (hinline : (ScanState.empty.scanLines (splitLines text)).inline = ⟨stack, [], false⟩)
    (hopen : stack ≠ []) (hnested : Nested stack) (hcount : ClosersCount stack)
    (hown : .math true true ∉ stack) :
    ScanState.empty.scanLines (splitLines (text ++ closersOf stack)) = .empty := by
  have hnewline : '\n' ∉ closersOf stack := fun hmem => hown ((of_mem_closersOf hmem).2.2 rfl)
  have hreturn : (closersOf stack).getLast? ≠ some '\r' :=
    fun hlast => (of_mem_closersOf (List.mem_of_getLast? hlast)).1 rfl
  rcases h.scanLines_append (by rw [hinline]; exact hopen) hnewline hreturn
      (fun x hx => (of_head?_closersOf hx).1) (dropWhile_closersOf_head?_ne stack) with
    ⟨view, before, -, hbefore, hscan⟩ | ⟨rest, hmarker, hends, hscan⟩
  · have hclass : CharClass.ofChar? before.head? ≠ .whiteSpace := by
      rw [hbefore, htext]
      exact ofChar?_of_isAlphanum hc
    rw [hscan, hinline, InlineState.scan_closersOf view _ _ hnested hcount hown hclass]
    rfl
  · -- A number and a closing parenthesis make a list marker, but leave nothing behind it.
    refine hscan ?_
    cases rest with
    | nil => rfl
    | cons x xs =>
      have hmem : x ∈ closersOf stack := by
        rcases hmarker with heq | heq <;> simp [heq]
      exact absurd (hends.symm.trans (of_mem_closersOf hmem).2.1) (by decide)

end

/-- The closers of what a text leaves open, put behind it, leave nothing open. -/
theorem ScanState.scanLines_append_suffix {text : List Char} {c : Char}
    (htext : text.getLast? = some c) (hc : c.isAlphanum = true)
    (hfence : (ScanState.empty.scanLines (splitLines text)).fence = none)
    (hcount : ClosersCount (ScanState.empty.scanLines (splitLines text)).inline.stack) :
    ScanState.empty.scanLines (splitLines
      (text ++ (ScanState.empty.scanLines (splitLines text)).inline.suffix)) = .empty := by
  obtain ⟨lines, last, h⟩ := exists_stopsPlain htext hc hfence
  have hnested := (isReached_scanLines text).inline.nested
  have hquiet := h.isQuiet
  rw [hquiet.suffix_eq]
  generalize hi : (ScanState.empty.scanLines (splitLines text)).inline = i at *
  obtain ⟨stack, partialCloser, labelClosed⟩ := i
  obtain rfl : partialCloser = [] := hquiet.1
  obtain rfl : labelClosed = false := hquiet.2
  cases stack with
  | nil =>
    rw [closersOf_nil, List.append_nil]
    exact congrArg₂ ScanState.mk hi hfence
  | cons construct below =>
    have hbelow : ∀ x ∈ below, x.isLiteral = false := hnested.isLiteral_tail
    by_cases hown : construct = .math true true
    · subst hown
      exact h.scanLines_append_closersOf_of_ownLine hi hbelow
        (hcount.of_suffix (List.suffix_cons _ _))
    · refine h.scanLines_append_closersOf htext hc hi (List.cons_ne_nil _ _) hnested hcount
        fun hmem => ?_
      rcases List.mem_cons.mp hmem with heq | hmem
      · exact hown heq.symm
      · exact absurd (hbelow _ hmem) (by decide)

/-! ### What a scan reports -/

/-- The closing line of a fence begins on a line of its own, the rest of a closing run does not. -/
theorem OpenFence.closerStartsLine_eq (f : OpenFence) :
    f.closerStartsLine = (f.closer.head? == some '\n') := by
  have hmark : f.mark.char ≠ '\n' := by cases f.mark <;> decide
  rw [closerStartsLine, closer]
  split
  · cases f.length - f.partialClose with
    | zero => rfl
    | succ k => simp [List.replicate_succ, hmark]
  · cases f.hasBody <;> rfl

theorem scanText_of_fence_eq_some {text : List Char} {lineBreakFollows : Bool} {f : OpenFence}
    (h : (ScanState.empty.scanLines (splitLines text)).fence = some f) :
    scanText text lineBreakFollows = ⟨[], some f, f.closer, f.closerStartsLine⟩ := by
  simp only [scanText, h]

/-- The row that completes a table head at the end of a text. -/
def separatorRow? (text : List Char) (lineBreakFollows : Bool) : Option (List Char) :=
  if lineBreakFollows then
    tableSeparatorFor ((splitLines text).getLastD []) (splitLines text).dropLast.getLast?
  else none

theorem scanText_of_separatorRow?_eq_some {text row : List Char} {lineBreakFollows : Bool}
    (hfence : (ScanState.empty.scanLines (splitLines text)).fence = none)
    (hrow : separatorRow? text lineBreakFollows = some row) :
    scanText text lineBreakFollows = ⟨[], none, '\n' :: row, true⟩ := by
  rw [separatorRow?] at hrow
  simp only [scanText, hfence, hrow]

theorem scanText_of_separatorRow?_eq_none {text : List Char} {lineBreakFollows : Bool}
    (hfence : (ScanState.empty.scanLines (splitLines text)).fence = none)
    (hrow : separatorRow? text lineBreakFollows = none) :
    scanText text lineBreakFollows =
      ⟨(ScanState.empty.scanLines (splitLines text)).inline.stack.reverse, none,
        (ScanState.empty.scanLines (splitLines text)).inline.suffix,
        (ScanState.empty.scanLines (splitLines text)).inline.suffix.head? == some '\n'⟩ := by
  rw [separatorRow?] at hrow
  simp only [scanText, hfence, hrow]

/-- A scan reports the fence that is open, a table head that lacks its separator row, or the inline
constructs that are open. -/
theorem scanText_cases (text : List Char) (lineBreakFollows : Bool) :
    let st := ScanState.empty.scanLines (splitLines text)
    let r := scanText text lineBreakFollows
    (∃ f, st.fence = some f ∧ r = ⟨[], some f, f.closer, f.closerStartsLine⟩) ∨
      (∃ row, st.fence = none ∧ separatorRow? text lineBreakFollows = some row ∧
        r = ⟨[], none, '\n' :: row, true⟩) ∨
      (st.fence = none ∧ separatorRow? text lineBreakFollows = none ∧
        r = ⟨st.inline.stack.reverse, none, st.inline.suffix,
          st.inline.suffix.head? == some '\n'⟩) := by
  intro st r
  cases hfence : st.fence with
  | some f => exact .inl ⟨f, rfl, scanText_of_fence_eq_some hfence⟩
  | none =>
    cases hrow : separatorRow? text lineBreakFollows with
    | some row => exact .inr (.inl ⟨row, rfl, rfl, scanText_of_separatorRow?_eq_some hfence hrow⟩)
    | none => exact .inr (.inr ⟨rfl, rfl, scanText_of_separatorRow?_eq_none hfence hrow⟩)

theorem fence_scanText (text : List Char) (lineBreakFollows : Bool) :
    (scanText text lineBreakFollows).fence =
      (ScanState.empty.scanLines (splitLines text)).fence := by
  rcases scanText_cases text lineBreakFollows with
    ⟨f, hfence, hscan⟩ | ⟨row, hfence, -, hscan⟩ | ⟨hfence, -, hscan⟩ <;> rw [hscan, hfence]

/-- A suffix begins on a line of its own exactly if its first character is a line feed. -/
theorem suffixStartsLine_scanText (text : List Char) (lineBreakFollows : Bool) :
    (scanText text lineBreakFollows).suffixStartsLine =
      ((scanText text lineBreakFollows).suffix.head? == some '\n') := by
  rcases scanText_cases text lineBreakFollows with ⟨f, -, hscan⟩ | ⟨row, -, -, hscan⟩ |
    ⟨-, -, hscan⟩
  · rw [hscan, f.closerStartsLine_eq]
  · rw [hscan]
    rfl
  · rw [hscan]

/-- A text that ends in ink other than a pipe ends in no table head. -/
theorem separatorRow?_of_getLast? {text : List Char} {c : Char} (hlast : text.getLast? = some c)
    (hblank : isBlankChar c = false) (hpipe : c ≠ '|') (lineBreakFollows : Bool) :
    separatorRow? text lineBreakFollows = none := by
  obtain ⟨lines, last, h⟩ := exists_isLastLine text
  have hnewline : c ≠ '\n' := by
    rintro rfl
    exact absurd hblank (by decide)
  have hrow := isPipeRow_of_getLast? (h.getLast?_eq hnewline hlast) hblank hpipe
  have hlastD : (splitLines text).getLastD [] = last := by
    rw [h.splitLines_eq, List.getLastD_concat]
  rw [separatorRow?, hlastD, tableSeparatorFor, hrow]
  exact ite_self none

/-- Without tildes, plus and equals signs, the closers of what a text leaves open leave nothing
open, if the text stops at a letter or a digit outside fences. -/
theorem scanText_append_suffix {text : List Char} (hchars : ∀ x ∈ text, x ≠ '~' ∧ x ≠ '+' ∧ x ≠ '=')
    {c : Char} (hlast : text.getLast? = some c) (hc : c.isAlphanum = true)
    (hfence : (scanText text false).fence = none) :
    scanText (text ++ (scanText text false).suffix) false = ⟨[], none, [], false⟩ := by
  rw [fence_scanText] at hfence
  have hcount : ClosersCount (ScanState.empty.scanLines (splitLines text)).inline.stack := by
    refine closersCount_of_forall_char fun marker hmarker => ?_
    have hmem := (ScanState.isReached_scanLines text).inline.char_mem marker hmarker
    obtain ⟨htilde, hplus, hequals⟩ := hchars _ hmem
    cases marker with
    | star | doubleStar => exact Or.inl rfl
    | underscore | doubleUnderscore => exact Or.inr rfl
    | tilde | doubleTilde => exact absurd rfl htilde
    | doublePlus => exact absurd rfl hplus
    | doubleEquals => exact absurd rfl hequals
  have hscan := ScanState.scanLines_append_suffix hlast hc hfence hcount
  rw [scanText_of_separatorRow?_eq_none hfence rfl,
    scanText_of_separatorRow?_eq_none (congrArg ScanState.fence hscan) rfl, hscan]
  rfl

/-- Closers of a code span, a label and three nested markers, read back. -/
theorem scanText_nested_markers_and_label :
    (∀ x ∈ "_a **b *c ![d `e".toList, x ≠ '~' ∧ x ≠ '+' ∧ x ≠ '=') ∧
      "_a **b *c ![d `e".toList.getLast? = some 'e' ∧ Char.isAlphanum 'e' = true ∧
      (scanText "_a **b *c ![d `e".toList false).fence = none ∧
      (scanText "_a **b *c ![d `e".toList false).suffix = "`](mdex:incomplete-link)***_".toList ∧
      scanText ("_a **b *c ![d `e".toList ++ "`](mdex:incomplete-link)***_".toList) false =
        ⟨[], none, [], false⟩ := by
  have hchars : ∀ x ∈ "_a **b *c ![d `e".toList, x ≠ '~' ∧ x ≠ '+' ∧ x ≠ '=' := by simp
  have hlast : "_a **b *c ![d `e".toList.getLast? = some 'e' := by decide
  have hfence : (scanText "_a **b *c ![d `e".toList false).fence = none := by cbv
  have hsuffix : (scanText "_a **b *c ![d `e".toList false).suffix =
      "`](mdex:incomplete-link)***_".toList := by cbv
  refine ⟨hchars, hlast, by decide, hfence, hsuffix, ?_⟩
  rw [← hsuffix]
  exact scanText_append_suffix hchars hlast (by decide) hfence

end LiveMarkdown
