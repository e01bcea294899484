import LiveMarkdown.Completion.Fragment
import LiveMarkdown.Proofs.Completion.ClosingLine
import LiveMarkdown.Proofs.Completion.ReadBack

/-!
# Reopening what was left open

A fragment hands the openers of what it leaves open over to the fragment that follows, which is
scanned with these openers in front. Openers in front of a letter make up a line of their own, which
enters no container and holds nothing but openers, so that the scan of the line decides whether the
same constructs are open again. Only a code span that is carried over alone can be lost as a whole:
its backticks may look like a fence.

## Main definitions

* `Completion.carriedConstructs`: the constructs that a fragment hands over.

## Main results

* `openConstructs_scanText_openersOf`: which constructs are open behind their openers.
* `reopens_of_distinct`: markers of different characters are open again.
* `reopens_iff_areReadBack`: when the openers of a fragment open again what it has left open.
-/

namespace LiveMarkdown

variable {constructs : List OpenConstruct}

/-! ### The line of the openers -/

/-- The characters of openers, and the letter behind them. -/
def openerChars : List Char := ['*', '_', '~', '+', '=', '`', '$', 'x']

theorem CarriedOver.mem_openerChars (h : CarriedOver constructs) :
    ∀ x ∈ openersOf constructs ++ ['x'], x ∈ openerChars := by
  induction h with
  | nil => simp [openerChars]
  | codeSpan hrun =>
    refine List.forall_mem_append.mpr ⟨fun x hx => ?_, by simp [openerChars]⟩
    rw [openersOf_cons, openersOf_nil, List.append_nil] at hx
    simp [List.eq_of_mem_replicate hx, openerChars]
  | math => simp [OpenConstruct.opener, openerChars]
  | delimiter marker _ ih =>
    rw [openersOf_cons, List.append_assoc]
    refine List.forall_mem_append.mpr ⟨fun x hx => ?_, ih⟩
    rw [List.eq_of_mem_replicate hx]
    cases marker <;> simp [Marker.char, openerChars]

/-- Openers in front of a letter enter no container. -/
theorem containerLead_of_openerChars {text : List Char} (hchars : ∀ x ∈ text, x ∈ openerChars)
    (hlast : text.getLast? = some 'x') : containerLead text = ⟨text, 0, false⟩ := by
  have hplain : ∀ x ∈ openerChars, x ≠ ' ' ∧ x ≠ '>' ∧ x.isDigit = false ∧
      isSpaceOrTab x = false := by
    simp [openerChars, isSpaceOrTab, Char.isDigit]
  obtain ⟨c, rest, rfl⟩ :=
    List.exists_cons_of_ne_nil (fun hnil : text = [] => by simp [hnil] at hlast)
  obtain ⟨hspace, hquote, hdigit, -⟩ := hplain c (hchars c List.mem_cons_self)
  refine ContainerLead.read_of_none hquote (dropSpaces_of_head?_ne (by simpa using hspace)) ?_
  rw [afterListMarker?_cons]
  split
  · rename_i hbullet
    have hrest : rest ≠ [] := by
      rintro rfl
      obtain rfl : c = 'x' := by simpa using hlast
      exact absurd hbullet (by decide)
    obtain ⟨d, more, rfl⟩ := List.exists_cons_of_ne_nil hrest
    obtain ⟨-, -, -, hblank⟩ := hplain d (hchars d (by simp))
    simp [endsMarker, hblank]
  · have hdigits : leadingDigits (c :: rest) = [] := by
      rw [leadingDigits, List.take_succ_cons, List.takeWhile_cons_of_neg (by simp [hdigit])]
    rw [afterOrdinal?_eq, hdigits]
    rfl

/-- Openers in front of a letter are scanned as one line, unless they look like a fence. -/
theorem openConstructs_scanText_of_openerChars {text : List Char}
    (hchars : ∀ x ∈ text, x ∈ openerChars) (hlast : text.getLast? = some 'x') :
    (scanText text false).openConstructs =
      match openFence? text text 0 with
      | some _ => []
      | none => (InlineState.scan (lineView text true) .empty [] text).stack.reverse := by
  have hne : text ≠ [] := fun hnil => by simp [hnil] at hlast
  have hplain : PlainEnd text := fun c hc => by
    obtain rfl := Option.some.inj (hlast.symm.trans hc)
    decide
  have hlead := containerLead_of_openerChars hchars hlast
  have hcontent : lineContent text = text := by
    rw [lineContent, hlead]
    refine dropSpaces_of_head?_ne fun hspace => ?_
    exact absurd (hchars ' ' (List.mem_of_head? hspace)) (by decide)
  have hlines : ScanState.empty.scanLines (splitLines text) =
      ScanState.empty.scanMarkup text true := by
    rw [splitLines_of_not_mem fun hmem => absurd (hchars _ hmem) (by decide), ScanState.scanLines,
      ScanState.stripReturn_of_getLast?_ne (by simp [hlast])]
    rfl
  have hstart : ScanState.empty.startOf text = .empty := by
    unfold ScanState.startOf
    split <;> rfl
  have hbefore : markersBefore text = [] := by
    rw [markersBefore, hlead, Nat.sub_self, List.take_zero, List.reverse_nil]
  rw [ScanState.scanMarkup_of_plainEnd _ hplain hne, hcontent, hstart, hbefore, hlead] at hlines
  cases hfence : openFence? text text 0 with
  | some f =>
    rw [hfence] at hlines
    rw [scanText_of_fence_eq_some (by rw [hlines])]
  | none =>
    rw [hfence] at hlines
    have hmarkup : ScanState.empty.scanLines (splitLines text) =
        ⟨InlineState.scan (lineView text true) .empty [] text, none⟩ := hlines
    rw [scanText_of_separatorRow?_eq_none (by rw [hmarkup]) rfl, hmarkup]

theorem openFence?_backticks_ne_none {run : Nat} (h : 3 ≤ run) (line : List Char)
    (quoteDepth : Nat) :
    openFence? line (List.replicate run '`' ++ ['x']) quoteDepth ≠ none := by
  obtain ⟨k, rfl⟩ := Nat.exists_eq_add_of_le' h
  have hlength : runLength '`' (List.replicate (k + 3) '`' ++ ['x']) = k + 3 :=
    runLength_replicate_append (by decide)
  have hdrop : (List.replicate (k + 3) '`' ++ ['x']).drop (k + 3) = ['x'] :=
    List.drop_left' List.length_replicate
  rw [List.replicate_succ, List.cons_append] at hlength hdrop ⊢
  simp [openFence?, FenceMark.ofChar?, hlength, hdrop]

/-- Openers in front of a letter only look like a fence if they are not read back. -/
theorem not_areReadBack_of_openFence?_eq_some (hcarried : CarriedOver constructs) {line : List Char}
    {f : OpenFence} (h : openFence? line (openersOf constructs ++ ['x']) 0 = some f) :
    constructs ≠ [] ∧ ¬ AreReadBack [] constructs := by
  obtain ⟨hhead, hlength, -⟩ := openFence?_eq_some h
  have hlong := (isSound_of_openFence?_eq_some h).1.three_le_length
  rw [hlength] at hlong
  have hmark : f.mark.char = '`' ∨ f.mark.char = '~' := by cases f.mark <;> simp [FenceMark.char]
  cases hcarried with
  | nil => rcases hmark with hmark | hmark <;> exact absurd (hmark ▸ hhead) (by decide)
  | math =>
    rcases hmark with hmark | hmark <;>
      exact absurd (hmark ▸ hhead) (by simp [OpenConstruct.opener])
  | @codeSpan run hrun =>
    have htext : openersOf [.codeSpan run] ++ ['x'] = List.replicate run '`' ++ ['x'] := by
      rw [openersOf_cons, openersOf_nil, List.append_nil, OpenConstruct.opener]
    have hchar : f.mark.char = '`' := by
      rw [htext, List.head?_append, List.head?_replicate, if_neg (Nat.ne_of_gt hrun)] at hhead
      exact (Option.some.inj hhead).symm
    rw [hchar, htext, runLength_replicate_append (by decide)] at hlong
    exact ⟨List.cons_ne_nil _ _, fun hreadBack => absurd (hreadBack.1 rfl) (Nat.not_lt.mpr hlong)⟩
  | @delimiter marker rest hrest =>
    obtain ⟨single, double, hmarkers, -⟩ := exists_markersOf?_char marker
    obtain ⟨k, hk, htext⟩ := exists_openersOf_delimiter marker rest ['x']
    rw [htext] at hhead hlong
    have hchar : f.mark.char = marker.char := (Option.some.inj hhead).symm
    rw [hchar, ← List.cons_append, ← List.replicate_succ,
      runLength_replicate_append (hrest.head?_ne marker)] at hlong
    refine ⟨List.cons_ne_nil _ _, fun hreadBack => ?_⟩
    -- A run that opens a fence is too long to count as one of strikethrough markers.
    obtain ⟨⟨-, hcounts, -⟩, -⟩ := (areReadBack_run_iff hmarkers rfl rest).mp hreadBack
    have htilde : marker.char = '~' := by
      rw [← hchar]
      refine hmark.resolve_left fun hbacktick => ?_
      rw [hchar] at hbacktick
      cases marker <;> exact absurd hbacktick (by decide)
    have hshort : closerRun marker.char (.delimiter marker :: rest) ≤ 2 := by
      simpa [htilde, countsAsRun] using hcounts
    omega

/-- Openers in front of a letter open the same constructs again exactly if all of these are read
back. -/
theorem openConstructs_scanText_openersOf (hcarried : CarriedOver constructs) :
    (scanText (openersOf constructs ++ ['x']) false).openConstructs = constructs ↔
      AreReadBack [] constructs := by
  rw [openConstructs_scanText_of_openerChars hcarried.mem_openerChars (by simp)]
  cases hfence : openFence? (openersOf constructs ++ ['x']) (openersOf constructs ++ ['x']) 0 with
  | some f =>
    obtain ⟨hne, hnot⟩ := not_areReadBack_of_openFence?_eq_some hcarried hfence
    simp [hne.symm, hnot]
  | none =>
    have hshort (run : Nat) (hrun : constructs = [.codeSpan run]) : run < 3 := by
      subst hrun
      refine Nat.lt_of_not_le fun hlong =>
        openFence?_backticks_ne_none hlong (List.replicate run '`' ++ ['x']) 0 ?_
      rwa [openersOf_cons, openersOf_nil, List.append_nil] at hfence
    have hscan : (InlineState.scan (lineView (openersOf constructs ++ ['x']) true) .empty []
          (openersOf constructs ++ ['x'])).stack = constructs.reverse ++ [] ↔
      AreReadBack [] constructs :=
      InlineState.scan_openersOf_iff _ hcarried (by simp [InlineState.empty]) rfl (fun _ _ _ => rfl)
        fun run hrun _ => hshort run hrun
    rw [List.append_nil] at hscan
    simpa only [List.reverse_eq_iff] using hscan

/-! ### What a completion carries over -/

theorem CarriedOver.append (h : CarriedOver constructs) {markers : List OpenConstruct}
    (hmarkers : ∀ x ∈ markers, ∃ marker, x = .delimiter marker) :
    CarriedOver (markers ++ constructs) := by
  induction markers with
  | nil => exact h
  | cons x markers ih =>
    obtain ⟨⟨marker, rfl⟩, hrest⟩ := List.forall_mem_cons.mp hmarkers
    exact .delimiter marker (ih hrest)

theorem OpenConstruct.exists_marker_of_carriesOver {x : OpenConstruct} (h : x.carriesOver = true)
    (hliteral : x.isLiteral = false) : ∃ marker, x = .delimiter marker := by
  cases x with
  | delimiter marker => exact ⟨marker, rfl⟩
  | linkLabel image footnote => cases h
  | _ => cases hliteral

theorem CarriedOver.singleton {x : OpenConstruct} (h : x.carriesOver = true) (hsound : x.IsSound) :
    CarriedOver [x] := by
  cases x with
  | delimiter marker => exact .delimiter marker .nil
  | codeSpan run => exact .codeSpan hsound
  | math display ownLine =>
    obtain rfl : display = false := by simpa [OpenConstruct.carriesOver] using h
    obtain rfl : ownLine = false :=
      Bool.eq_false_iff.mpr fun hown => Bool.false_ne_true (hsound hown)
    exact .math
  | _ => cases h

/-- Only the innermost of the constructs that are carried over can be something else than a
marker. -/
theorem Nested.carriedOver {stack : List OpenConstruct} (h : Nested stack) :
    CarriedOver (stack.reverse.filter OpenConstruct.carriesOver) := by
  cases stack with
  | nil => exact .nil
  | cons x stack =>
    rw [List.reverse_cons, List.filter_append]
    refine CarriedOver.append ?_ fun y hy => ?_
    · cases hcarries : x.carriesOver with
      | true =>
        simpa [hcarries] using CarriedOver.singleton hcarries (h.isSound x List.mem_cons_self)
      | false => simpa [hcarries] using CarriedOver.nil
    · obtain ⟨hmem, hcarries⟩ := List.mem_filter.mp hy
      exact OpenConstruct.exists_marker_of_carriesOver hcarries
        (h.isLiteral_tail y (List.mem_reverse.mp hmem))

theorem carriedOver_scanText (text : List Char) (lineBreakFollows : Bool) :
    CarriedOver ((scanText text lineBreakFollows).openConstructs.filter
      OpenConstruct.carriesOver) := by
  have hnested := (ScanState.isReached_scanLines text).inline.nested
  unfold scanText
  simp only
  split
  · exact .nil
  · split
    · exact .nil
    · exact hnested.carriedOver

namespace Completion

/-- What a completed fragment has left open and its successor has to open again, outermost first. -/
def carriedConstructs (c : Completion) : List OpenConstruct :=
  (c.scan.map fun scan => scan.openConstructs.filter OpenConstruct.carriesOver).getD []

theorem carried_eq (c : Completion) : c.carried = openersOf c.carriedConstructs := by
  rw [carried, carriedConstructs]
  cases c.scan <;> rfl

end Completion

theorem carriedOver_completeText (text carried : List Char) :
    CarriedOver (completeText text carried).carriedConstructs := by
  unfold completeText
  simp only
  split
  · exact .nil
  · exact carriedOver_scanText _ _

/-- Markers of different characters are open again, with a code span or formula behind them. -/
theorem reopens_of_distinct (text carried : String)
    (hdistinct : (completeText text.toList carried.toList).carriedConstructs.Pairwise
      fun x y => ∀ a b, x = .delimiter a → y = .delimiter b → a.char ≠ b.char)
    (hspan : ∀ run, (completeText text.toList carried.toList).carriedConstructs = [.codeSpan run] →
      run < 3) :
    (scanText ((completeCarrying text carried).2.toList ++ ['x']) false).openConstructs =
      (completeText text.toList carried.toList).carriedConstructs := by
  have hcarried := carriedOver_completeText text.toList carried.toList
  rw [completeCarrying, String.toList_ofList, Completion.carried_eq]
  exact (openConstructs_scanText_openersOf hcarried).mpr
    (hcarried.areReadBack_of_distinct hdistinct (by simp) fun run hrun _ => hspan run hrun)

/-- The openers that a completed fragment leaves to its successor open the same constructs again
exactly if all of these are read back. -/
theorem reopens_iff_areReadBack (text carried : String) :
    (scanText ((completeCarrying text carried).2.toList ++ ['x']) false).openConstructs =
        (completeText text.toList carried.toList).carriedConstructs ↔
      AreReadBack [] (completeText text.toList carried.toList).carriedConstructs := by
  rw [completeCarrying, String.toList_ofList, Completion.carried_eq]
  exact openConstructs_scanText_openersOf (carriedOver_completeText text.toList carried.toList)

/-- A code span of three backticks is carried over as what opens a fence. -/
theorem reopens_ne_of_long_code_span :
    (completeText "a ```b".toList "".toList).carriedConstructs = [.codeSpan 3] ∧
      (completeCarrying "a ```b" "").2 = "```" ∧
      (scanText ((completeCarrying "a ```b" "").2.toList ++ ['x']) false).openConstructs ≠
        (completeText "a ```b".toList "".toList).carriedConstructs := by
  decide +kernel

end LiveMarkdown
