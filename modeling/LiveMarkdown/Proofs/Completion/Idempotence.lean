import LiveMarkdown.Completion.Fragment
import LiveMarkdown.Proofs.Completion.TableHead

/-!
# Completing twice

A completed fragment is cut where the fragment was cut: its core is the core with the closers behind
it. Hence completing it again changes nothing exactly if the scan of that longer core finds nothing
to close. This holds of table heads, of fences whose closing line is one, and of text that stops at
a letter or a digit, if no two of its closers run together. It does not hold of every text: a closer
may be escaped by a backslash in front of it, or join the run of characters at the end of the text.

## Main definitions

* `FragmentParts.IsCut`: the edges of a fragment are white space, and its core has none at its ends.
* `firstScan`, `rescan`: the scan that completes a fragment, and the scan of what it has completed.
* `CompletesOnce`: completing the fragment twice is completing it once.

## Main results

* `FragmentParts.IsCut.ofText_eq`: a fragment is put together from its parts.
* `completed_completed_eq_iff`: when completing twice is completing once.
* `completesOnce_iff`: the same for strings, and what it means for each sort of construct.
-/

namespace LiveMarkdown

/-! ### The parts of a fragment -/

namespace FragmentParts

/-- White space around a core that neither starts nor ends with white space. -/
structure IsCut (p : FragmentParts) : Prop where
  leading : ∀ c ∈ p.leading, isAsciiWhiteSpace c = true
  trailing : ∀ c ∈ p.trailing, isAsciiWhiteSpace c = true
  head : ∀ c, p.core.head? = some c → isAsciiWhiteSpace c = false
  last : ∀ c, p.core.getLast? = some c → isAsciiWhiteSpace c = false

theorem isCut_ofText (text : List Char) : (ofText text).IsCut := by
  generalize hbody : text.dropWhile isAsciiWhiteSpace = body
  have hparts : ofText text = ⟨text.takeWhile isAsciiWhiteSpace,
      (body.reverse.dropWhile isAsciiWhiteSpace).reverse,
      body.drop (body.reverse.dropWhile isAsciiWhiteSpace).reverse.length⟩ := by
    rw [← hbody]
    rfl
  have hsplit : body = (body.reverse.dropWhile isAsciiWhiteSpace).reverse ++
      (body.reverse.takeWhile isAsciiWhiteSpace).reverse := by
    rw [← List.reverse_append, List.takeWhile_append_dropWhile, List.reverse_reverse]
  have htrailing : body.drop (body.reverse.dropWhile isAsciiWhiteSpace).reverse.length =
      (body.reverse.takeWhile isAsciiWhiteSpace).reverse :=
    (congrArg (List.drop _) hsplit).trans List.drop_left
  rw [hparts, htrailing]
  refine ⟨fun c hc => List.mem_takeWhile_imp hc, fun c hc => ?_, fun c hc => ?_, fun c hc => ?_⟩
  · exact List.mem_takeWhile_imp (List.mem_reverse.mp hc)
  · have hhead : body.head? = some c := by
      rw [hsplit, List.head?_append, hc, Option.some_or]
    have hnot := List.head?_dropWhile_not isAsciiWhiteSpace text
    rw [hbody, hhead] at hnot
    exact hnot
  · have hnot := List.head?_dropWhile_not isAsciiWhiteSpace body.reverse
    rw [List.getLast?_reverse] at hc
    rw [hc] at hnot
    exact hnot

/-- The parts of a fragment make up the fragment. -/
theorem append_ofText (text : List Char) :
    (ofText text).leading ++ ((ofText text).core ++ (ofText text).trailing) = text := by
  have hprefix :
      ((text.dropWhile isAsciiWhiteSpace).reverse.dropWhile isAsciiWhiteSpace).reverse <+:
      text.dropWhile isAsciiWhiteSpace := by
    rw [← List.reverse_suffix, List.reverse_reverse]
    exact List.dropWhile_suffix _
  calc (ofText text).leading ++ ((ofText text).core ++ (ofText text).trailing)
      = text.takeWhile isAsciiWhiteSpace ++ text.dropWhile isAsciiWhiteSpace :=
        congrArg _ (List.prefix_iff_eq_append.mp hprefix)
    _ = text := List.takeWhile_append_dropWhile

theorem ofText_of_forall_isAsciiWhiteSpace {text : List Char}
    (h : ∀ c ∈ text, isAsciiWhiteSpace c = true) : ofText text = ⟨text, [], []⟩ := by
  have hbody : text.dropWhile isAsciiWhiteSpace = [] := List.dropWhile_eq_nil_iff.mpr h
  rw [ofText, List.takeWhile_eq_self_iff.mpr h, hbody]
  rfl

/-- A fragment without a core is white space. -/
theorem forall_isAsciiWhiteSpace_of_core_eq_nil {text : List Char} (h : (ofText text).core = []) :
    ∀ c ∈ text, isAsciiWhiteSpace c = true := by
  rw [← append_ofText text, h, List.nil_append]
  exact List.forall_mem_append.mpr ⟨(isCut_ofText text).leading, (isCut_ofText text).trailing⟩

/-- A fragment is cut where it has been put together. -/
theorem IsCut.ofText_eq {p : FragmentParts} (h : p.IsCut) (hne : p.core ≠ []) :
    ofText (p.leading ++ (p.core ++ p.trailing)) = p := by
  obtain ⟨x, xs, hcore⟩ := List.exists_cons_of_ne_nil hne
  have hx : isAsciiWhiteSpace x = false := h.head x (by rw [hcore]; rfl)
  have hleading : (p.leading ++ (p.core ++ p.trailing)).takeWhile isAsciiWhiteSpace =
      p.leading := by
    rw [List.takeWhile_append_of_pos h.leading, hcore, List.cons_append,
      List.takeWhile_cons_of_neg (by simp [hx]), List.append_nil]
  have hbody : (p.leading ++ (p.core ++ p.trailing)).dropWhile isAsciiWhiteSpace =
      p.core ++ p.trailing := by
    rw [List.dropWhile_append_of_pos h.leading, hcore, List.cons_append,
      List.dropWhile_cons_of_neg (by simp [hx])]
  have hcoreEq : ((p.core ++ p.trailing).reverse.dropWhile isAsciiWhiteSpace).reverse = p.core := by
    obtain ⟨y, ys, hreverse⟩ := List.exists_cons_of_ne_nil (List.reverse_ne_nil_iff.mpr hne)
    have hy : isAsciiWhiteSpace y = false :=
      h.last y (by rw [List.getLast?_eq_head?_reverse, hreverse]; rfl)
    rw [List.reverse_append, List.dropWhile_append_of_pos fun c hc =>
      h.trailing c (List.mem_reverse.mp hc), hreverse, List.dropWhile_cons_of_neg (by simp [hy]),
      ← hreverse, List.reverse_reverse]
  rw [ofText]
  simp only [hleading, hbody, hcoreEq, List.drop_left]

end FragmentParts

/-! ### What a completion keeps -/

/-- The white space in front of a core that a completion keeps. -/
def keptLeading (leading core : List Char) : List Char :=
  if isStructuralLeading leading core then leading else []

/-- The white space behind a core that a completion keeps. -/
def keptTrailing (suffix trailing : List Char) : List Char :=
  if suffix.head? == some '\n' then dropLineBreak trailing else trailing

theorem dropLineBreak_suffix (cs : List Char) : dropLineBreak cs <:+ cs := by
  unfold dropLineBreak
  split
  · exact List.suffix_cons _ _
  · exact (List.suffix_cons _ _).trans (List.suffix_cons _ _)
  · exact List.suffix_refl _

theorem keptTrailing_suffix (suffix trailing : List Char) :
    keptTrailing suffix trailing <:+ trailing := by
  rw [keptTrailing]
  split
  · exact dropLineBreak_suffix trailing
  · exact List.suffix_refl _

/-- Leading white space that has been kept is kept again, in front of the core with its closers. -/
theorem keptLeading_keptLeading {leading core suffix : List Char}
    (h : afterListMarker? core = some [] → suffix = []) :
    keptLeading (keptLeading leading core) (core ++ suffix) = keptLeading leading core := by
  by_cases hkeeps : isStructuralLeading leading core = true
  · have hkeepsAgain : isStructuralLeading leading (core ++ suffix) = true := by
      simp only [isStructuralLeading, Bool.and_eq_true, Bool.or_eq_true] at hkeeps ⊢
      obtain ⟨hne, hshape | hmarker⟩ := hkeeps
      · exact ⟨hne, Or.inl hshape⟩
      · refine ⟨hne, Or.inr ?_⟩
        obtain ⟨rest, hrest⟩ := Option.isSome_iff_exists.mp hmarker
        by_cases hnil : rest = []
        · subst hnil
          rw [h hrest, List.append_nil]
          exact hmarker
        · rw [afterListMarker?_append_of_some hrest hnil]
          rfl
    have hkept : keptLeading leading core = leading := by rw [keptLeading, if_pos hkeeps]
    rw [hkept, keptLeading, if_pos hkeepsAgain]
  · have hnil : keptLeading leading core = [] := by rw [keptLeading, if_neg hkeeps]
    rw [hnil, keptLeading]
    exact ite_self []

/-! ### A list marker alone -/

theorem exists_eq_append_of_loneMarker {core : List Char} (h : afterListMarker? core = some []) :
    ∃ digits x, core = digits ++ [x] ∧ (∀ d ∈ digits, d.isDigit = true) ∧
      x ∈ ['-', '+', '*', '.', ')'] := by
  cases core with
  | nil => exact absurd h (by decide)
  | cons c cs =>
    rw [afterListMarker?_cons, Option.filter_eq_some_iff] at h
    obtain ⟨h, -⟩ := h
    by_cases hc : c = '-' ∨ c = '+' ∨ c = '*'
    · rw [if_pos hc] at h
      obtain rfl := Option.some.inj h
      refine ⟨[], c, rfl, by simp, ?_⟩
      rcases hc with rfl | rfl | rfl <;> decide
    · rw [if_neg hc, afterOrdinal?_eq] at h
      have hdigits : ∀ d ∈ leadingDigits (c :: cs), d.isDigit = true :=
        fun d hd => List.mem_takeWhile_imp hd
      have hsplit : c :: cs = leadingDigits (c :: cs) ++
          (c :: cs).drop (leadingDigits (c :: cs)).length := by
        conv =>
          lhs
          rw [← List.take_append_drop (leadingDigits (c :: cs)).length (c :: cs),
            ← List.prefix_iff_eq_take.mp (leadingDigits_isInit (c :: cs))]
      split at h
      · exact absurd h (by simp)
      · split at h
        · rename_i rest hrest
          obtain rfl := Option.some.inj h
          exact ⟨leadingDigits (c :: cs), '.', by rw [← hrest]; exact hsplit, hdigits, by decide⟩
        · rename_i rest hrest
          obtain rfl := Option.some.inj h
          exact ⟨leadingDigits (c :: cs), ')', by rw [← hrest]; exact hsplit, hdigits, by decide⟩
        · exact absurd h (by simp)

theorem dropSpaces_cons_of_ne {n : Nat} {c : Char} (hc : c ≠ ' ') (cs : List Char) :
    dropSpaces n (c :: cs) = c :: cs := by
  rw [dropSpaces]
  rintro k rest rfl heq
  exact hc (List.cons.inj heq).1

/-- A list marker alone leaves nothing open. -/
theorem suffix_scanText_of_loneMarker {core : List Char} (h : afterListMarker? core = some [])
    (lineBreakFollows : Bool) : (scanText core lineBreakFollows).suffix = [] := by
  obtain ⟨digits, x, hcore, hdigits, hx⟩ := exists_eq_append_of_loneMarker h
  have hmem : ∀ y ∈ core, y.isDigit = true ∨ y ∈ ['-', '+', '*', '.', ')'] := by
    intro y hy
    rw [hcore] at hy
    rcases List.mem_append.mp hy with hy | hy
    · exact Or.inl (hdigits y hy)
    · exact Or.inr (List.mem_singleton.mp hy ▸ hx)
  have hne : ∀ y ∈ core, ∀ z : Char, z.isDigit = false → z ∉ ['-', '+', '*', '.', ')'] → y ≠ z := by
    rintro y hy z hz hnot rfl
    rcases hmem y hy with hdigit | hmark
    · exact absurd (hdigit.symm.trans hz) (by decide)
    · exact hnot hmark
  have hlast : core.getLast? = some x := by rw [hcore, List.getLast?_concat]
  have hxMem : x ∈ core := List.mem_of_getLast? hlast
  have hink : ∀ y ∈ ['-', '+', '*', '.', ')'], isBlankChar y = false ∧ y ≠ '|' := by
    simp only [List.forall_mem_cons]
    exact ⟨by decide, by decide, by decide, by decide, by decide, List.forall_mem_nil _⟩
  have hisLast : IsLastLine core [] core :=
    ⟨fun hnewline => hne _ hnewline '\n' (by decide) (by decide) rfl, Or.inl ⟨rfl, rfl⟩⟩
  have hreturn : core.getLast? ≠ some '\r' :=
    fun heq => hne _ (List.mem_of_getLast? heq) '\r' (by decide) (by decide) rfl
  have hlead : (containerLead core).rest = [] := by
    obtain ⟨c, cs, hcons⟩ := List.exists_cons_of_ne_nil (List.ne_nil_of_mem hxMem)
    have hc : c ∈ core := hcons ▸ List.mem_cons_self
    have hdrop : dropSpaces 3 core = c :: cs := by
      rw [hcons]
      exact dropSpaces_cons_of_ne (hne c hc ' ' (by decide) (by decide)) cs
    rw [containerLead,
      ContainerLead.read_of_marker (hne c hc '>' (by decide) (by decide)) hdrop (hcons ▸ h)]
    exact congrArg ContainerLead.rest ContainerLead.read_nil
  have hscan : ScanState.empty.scanLines (splitLines core) = .empty := by
    have hcontent : lineContent core = [] := by
      rw [lineContent, hlead]
      rfl
    rw [ScanState.scanLines_of_isLastLine hisLast hreturn]
    show ScanState.empty.scanMarkup core true = .empty
    rw [ScanState.scanMarkup_eq, hcontent]
    split <;> rfl
  exact suffix_scanText_of_scanLines_eq_empty hscan
    (separatorRow?_of_getLast? hlast (hink x hx).1 (hink x hx).2 lineBreakFollows)

/-! ### The ends of closers -/

/-- The characters that closers end in. -/
def closerEnds : List Char :=
  ['*', '_', '~', '+', '=', '`', '$', ')', ']']

theorem of_mem_closerEnds {c : Char} (h : c ∈ closerEnds) :
    isBlankChar c = false ∧ c ≠ '|' ∧ isAsciiWhiteSpace c = false := by
  simp only [closerEnds, List.mem_cons, List.not_mem_nil, or_false] at h
  rcases h with rfl | rfl | rfl | rfl | rfl | rfl | rfl | rfl | rfl <;> decide

theorem OpenConstruct.mem_closerEnds_of_getLast? {construct : OpenConstruct} {c : Char}
    (h : construct.closer.getLast? = some c) : c ∈ closerEnds := by
  cases construct with
  | delimiter marker =>
    obtain rfl := List.eq_of_mem_replicate (List.mem_of_getLast? h)
    cases marker <;> decide
  | codeSpan run =>
    obtain rfl := List.eq_of_mem_replicate (List.mem_of_getLast? h)
    decide
  | math display ownLine =>
    cases display <;> cases ownLine <;>
    · obtain rfl := Option.some.inj h
      decide
  | linkLabel image footnote =>
    obtain rfl | rfl : c = ')' ∨ c = ']' := by
      cases footnote with
      | true => exact Or.inr (Option.some.inj h).symm
      | false => exact Or.inl (Option.some.inj h).symm
    · decide
    · decide
  | linkDestination depth =>
    obtain rfl := List.eq_of_mem_replicate (List.mem_of_getLast? h)
    decide

theorem mem_closerEnds_of_getLast?_append {cs ds : List Char}
    (hcs : ∀ c, cs.getLast? = some c → c ∈ closerEnds)
    (hds : ∀ c, ds.getLast? = some c → c ∈ closerEnds) :
    ∀ c, (cs ++ ds).getLast? = some c → c ∈ closerEnds := by
  intro c h
  rw [List.getLast?_append, Option.or_eq_some_iff] at h
  rcases h with h | ⟨-, h⟩
  · exact hds c h
  · exact hcs c h

theorem mem_closerEnds_of_getLast?_closersOf (stack : List OpenConstruct) :
    ∀ c, (closersOf stack).getLast? = some c → c ∈ closerEnds := by
  induction stack with
  | nil => exact fun c h => absurd h (by simp)
  | cons construct below ih =>
    exact mem_closerEnds_of_getLast?_append (fun c h => OpenConstruct.mem_closerEnds_of_getLast? h)
      ih

theorem mem_closerEnds_of_isSome_markersOf? {c : Char} (h : (markersOf? c).isSome) :
    c ∈ closerEnds := by
  obtain ⟨⟨single, double⟩, hmarkers⟩ := Option.isSome_iff_exists.mp h
  rw [← (markersOf?_char hmarkers).1]
  cases single <;> decide

theorem InlineState.IsReached.mem_closerEnds {text : List Char} {st : InlineState}
    (h : st.IsReached text) : ∀ c, st.suffix.getLast? = some c → c ∈ closerEnds := by
  refine mem_closerEnds_of_getLast?_append
    (mem_closerEnds_of_getLast?_append (fun c hc => ?_) fun c hc => ?_)
    (mem_closerEnds_of_getLast?_closersOf st.stack)
  · exact mem_closerEnds_of_isSome_markersOf? (h.isMarker c (List.mem_of_getLast? hc))
  · split at hc
    · obtain rfl := Option.some.inj hc
      decide
    · exact absurd hc (by simp)

/-- What completes a text ends in a closer, unless it completes a table head. -/
theorem suffix_scanText_cases {text : List Char} {lineBreakFollows : Bool}
    (hne : (scanText text lineBreakFollows).suffix ≠ []) :
    (∃ c ∈ closerEnds, (scanText text lineBreakFollows).suffix.getLast? = some c) ∨
      (∃ row, (ScanState.empty.scanLines (splitLines text)).fence = none ∧
        separatorRow? text lineBreakFollows = some row ∧
        (scanText text lineBreakFollows).suffix = '\n' :: row) := by
  obtain ⟨c, hlast⟩ : ∃ c, (scanText text lineBreakFollows).suffix.getLast? = some c :=
    ⟨_, List.getLast?_eq_some_getLast hne⟩
  have hreached := ScanState.isReached_scanLines text
  rcases scanText_cases text lineBreakFollows with
    ⟨f, hfence, hscan⟩ | ⟨row, hfence, hrow, hscan⟩ | ⟨-, -, hscan⟩
  · left
    rw [hscan] at hne ⊢
    refine ⟨f.mark.char, by cases f.mark <;> decide, ?_⟩
    exact (hreached.fence f hfence).1.getLast?_closer hne
  · exact Or.inr ⟨row, hfence, hrow, congrArg ScanResult.suffix hscan⟩
  · refine Or.inl ⟨c, ?_, hlast⟩
    rw [hscan] at hlast
    exact hreached.inline.mem_closerEnds _ hlast

/-! ### Completing twice -/

theorem suffix_scanText_nil (lineBreakFollows : Bool) :
    (scanText [] lineBreakFollows).suffix = [] := by
  have hscan : ScanState.empty.scanLines (splitLines []) = .empty := by
    show ScanState.empty.scanMarkup [] true = .empty
    have hcontent : lineContent [] = [] := by
      rw [lineContent, containerLead, ContainerLead.read_nil]
      rfl
    rw [ScanState.scanMarkup_eq, hcontent]
    rfl
  refine suffix_scanText_of_scanLines_eq_empty hscan ?_
  cases lineBreakFollows <;> rfl

/-- The scan that completes a fragment. -/
def firstScan (text : List Char) : ScanResult :=
  scanText (FragmentParts.ofText text).core
    (startsWithLineBreak (FragmentParts.ofText text).trailing)

/-- The scan of the core of a fragment with its closers. -/
def rescan (text : List Char) : ScanResult :=
  scanText ((FragmentParts.ofText text).core ++ (firstScan text).suffix)
    (startsWithLineBreak (FragmentParts.ofText text).trailing)

/-- The closers that a completion adds are those that its scan reports. -/
theorem suffix_completeText (text : List Char) :
    (completeText text []).suffix = (firstScan text).suffix := by
  rw [completeText, firstScan]
  by_cases hcore : (FragmentParts.ofText text).core = []
  · rw [hcore, suffix_scanText_nil]
    rfl
  · have hisEmpty : (FragmentParts.ofText text).core.isEmpty = false := by simpa using hcore
    simp only [hisEmpty, Bool.false_and, Bool.false_eq_true, if_false, List.nil_append]
    rfl

/-- The parts of a completed fragment. -/
def completedParts (text : List Char) : FragmentParts :=
  ⟨keptLeading (FragmentParts.ofText text).leading (FragmentParts.ofText text).core,
    (FragmentParts.ofText text).core ++ (firstScan text).suffix,
    keptTrailing (firstScan text).suffix (FragmentParts.ofText text).trailing⟩

theorem completed_of_core_eq_nil {text : List Char} (h : (FragmentParts.ofText text).core = []) :
    (completeText text []).completed = text := by
  rw [completeText, h]
  rfl

theorem completed_of_core_ne_nil {text : List Char} (h : (FragmentParts.ofText text).core ≠ []) :
    (completeText text []).completed =
      keptLeading (FragmentParts.ofText text).leading (FragmentParts.ofText text).core ++
        ((FragmentParts.ofText text).core ++ (firstScan text).suffix ++
          keptTrailing (firstScan text).suffix (FragmentParts.ofText text).trailing) := by
  have hisEmpty : (FragmentParts.ofText text).core.isEmpty = false := by simpa using h
  rw [completeText]
  simp only [hisEmpty, Bool.false_and, Bool.false_eq_true, if_false, List.nil_append,
    suffixStartsLine_scanText]
  rw [List.append_assoc, List.append_assoc, List.append_assoc]
  rfl

theorem lineBreakFollows_of_separatorRow? {text row : List Char} {lineBreakFollows : Bool}
    (h : separatorRow? text lineBreakFollows = some row) : lineBreakFollows = true := by
  cases lineBreakFollows with
  | true => rfl
  | false => exact absurd h (by simp [separatorRow?])

/-- What completes a text does not end in white space. -/
theorem ink_of_getLast?_suffix {text : List Char} {lineBreakFollows : Bool} {c : Char}
    (h : (scanText text lineBreakFollows).suffix.getLast? = some c) :
    isAsciiWhiteSpace c = false := by
  have hne : (scanText text lineBreakFollows).suffix ≠ [] := by
    intro hnil
    rw [hnil] at h
    exact absurd h (by simp)
  rcases suffix_scanText_cases hne with ⟨x, hx, hlast⟩ | ⟨row, -, hrow, hsuffix⟩
  · obtain rfl := Option.some.inj (hlast.symm.trans h)
    exact (of_mem_closerEnds hx).2.2
  · obtain rfl := lineBreakFollows_of_separatorRow? hrow
    obtain ⟨rest, rfl, hrest, -⟩ := exists_cons_of_tableSeparatorFor hrow
    have hrestNe : rest ≠ [] := by
      rintro rfl
      exact absurd hrest (by simp)
    rw [hsuffix,
      ← getLast?_of_suffix ((List.suffix_cons '|' rest).trans (List.suffix_cons '\n' _)) hrestNe,
      hrest] at h
    obtain rfl := Option.some.inj h
    decide

theorem scanText_eq_of_separatorRow?_eq_none {text : List Char} {b b' : Bool}
    (h : separatorRow? text b = none) (h' : separatorRow? text b' = none) :
    scanText text b = scanText text b' := by
  cases hfence : (ScanState.empty.scanLines (splitLines text)).fence with
  | some f => rw [scanText_of_fence_eq_some hfence, scanText_of_fence_eq_some hfence]
  | none =>
    rw [scanText_of_separatorRow?_eq_none hfence h, scanText_of_separatorRow?_eq_none hfence h']

section

variable {text : List Char} (hcore : (FragmentParts.ofText text).core ≠ [])

include hcore

/-- A core and its closers end in no table head. -/
theorem separatorRow?_append_suffix (hne : (firstScan text).suffix ≠ []) (lineBreakFollows : Bool) :
    separatorRow? ((FragmentParts.ofText text).core ++ (firstScan text).suffix) lineBreakFollows =
      none := by
  rcases suffix_scanText_cases hne with ⟨c, hc, hlast⟩ | ⟨row, hfence, hrow, hsuffix⟩
  · obtain ⟨hblank, hpipe, -⟩ := of_mem_closerEnds hc
    have hlastC : ((FragmentParts.ofText text).core ++ (firstScan text).suffix).getLast? =
        some c := by
      rw [List.getLast?_append, firstScan, hlast, Option.some_or]
    exact separatorRow?_of_getLast? hlastC hblank hpipe lineBreakFollows
  · rw [lineBreakFollows_of_separatorRow? hrow] at hrow
    have hcoreLast := List.getLast?_eq_some_getLast hcore
    have hink := (FragmentParts.isCut_ofText text).last _ hcoreLast
    rw [firstScan, hsuffix]
    exact (ScanState.scanLines_append_row hcoreLast hink hfence hrow).2 lineBreakFollows

theorem isCut_completedParts : (completedParts text).IsCut := by
  have hcut := FragmentParts.isCut_ofText text
  refine ⟨fun c hc => ?_, fun c hc => ?_, fun c hc => ?_, fun c hc => ?_⟩
  · rw [completedParts, keptLeading] at hc
    split at hc
    · exact hcut.leading c hc
    · exact absurd hc List.not_mem_nil
  · exact hcut.trailing c ((keptTrailing_suffix _ _).subset hc)
  · replace hc : ((FragmentParts.ofText text).core ++ (firstScan text).suffix).head? = some c := hc
    rw [head?_append_of_ne_nil hcore] at hc
    exact hcut.head c hc
  · replace hc : ((FragmentParts.ofText text).core ++ (firstScan text).suffix).getLast? = some c :=
      hc
    rw [List.getLast?_append, Option.or_eq_some_iff] at hc
    rcases hc with hc | ⟨-, hc⟩
    · exact ink_of_getLast?_suffix hc
    · exact hcut.last c hc

theorem ofText_completed :
    FragmentParts.ofText (completeText text []).completed = completedParts text := by
  have hne : (completedParts text).core ≠ [] := List.append_ne_nil_of_left_ne_nil hcore _
  rw [completed_of_core_ne_nil hcore]
  exact (isCut_completedParts hcore).ofText_eq hne

theorem firstScan_completed : firstScan (completeText text []).completed = rescan text := by
  rw [firstScan, rescan, ofText_completed hcore, completedParts]
  by_cases hnil : (firstScan text).suffix = []
  · rw [hnil]
    rfl
  · exact scanText_eq_of_separatorRow?_eq_none (separatorRow?_append_suffix hcore hnil _)
      (separatorRow?_append_suffix hcore hnil _)

/-- Completing again puts the closers that the second scan finds behind those of the first. -/
theorem completed_completed : (completeText (completeText text []).completed []).completed =
    (completedParts text).leading ++ ((completedParts text).core ++ (rescan text).suffix ++
      keptTrailing (rescan text).suffix (completedParts text).trailing) := by
  have hne : (FragmentParts.ofText (completeText text []).completed).core ≠ [] := by
    rw [ofText_completed hcore]
    exact List.append_ne_nil_of_left_ne_nil hcore _
  have hleading : keptLeading (completedParts text).leading (completedParts text).core =
      (completedParts text).leading :=
    keptLeading_keptLeading fun hmarker => suffix_scanText_of_loneMarker hmarker _
  rw [completed_of_core_ne_nil hne, firstScan_completed hcore, ofText_completed hcore, hleading]

end

/-- Completing twice is completing once exactly if nothing is open behind the closers of the
core. -/
theorem completed_completed_eq_iff (text : List Char) :
    (completeText (completeText text []).completed []).completed =
      (completeText text []).completed ↔ (rescan text).suffix = [] := by
  by_cases hcore : (FragmentParts.ofText text).core = []
  · rw [completed_of_core_eq_nil hcore, completed_of_core_eq_nil hcore, rescan, firstScan, hcore,
      suffix_scanText_nil, List.append_nil, suffix_scanText_nil]
    exact iff_of_true rfl rfl
  have honce : (completeText text []).completed =
      (completedParts text).leading ++
      ((completedParts text).core ++ (completedParts text).trailing) :=
    completed_of_core_ne_nil hcore
  rw [completed_completed hcore, honce, List.append_cancel_left_eq, List.append_assoc,
    List.append_cancel_left_eq]
  constructor
  · intro heq
    by_contra hne
    obtain ⟨c, hlast⟩ : ∃ c, (rescan text).suffix.getLast? = some c :=
      ⟨_, List.getLast?_eq_some_getLast hne⟩
    have hmem : c ∈ (completedParts text).trailing :=
      heq ▸ List.mem_append_left _ (List.mem_of_getLast? hlast)
    have hspace := (isCut_completedParts hcore).trailing c hmem
    exact absurd (hspace.symm.trans (ink_of_getLast?_suffix hlast)) (by decide)
  · intro hnil
    rw [hnil]
    rfl

/-! ### Fragments that are complete after one completion -/

/-- Completing the fragment twice is completing it once. -/
def CompletesOnce (text : String) : Prop :=
  completeFragment (completeFragment text) = completeFragment text

theorem completesOnce_iff_suffix_rescan (text : String) :
    CompletesOnce text ↔ (rescan text.toList).suffix = [] := by
  rw [CompletesOnce, completeFragment, completeFragment, String.toList_ofList, String.ofList_inj]
  exact completed_completed_eq_iff text.toList

theorem completionSuffix_completeFragment (text : String) :
    completionSuffix (completeFragment text) = String.ofList (rescan text.toList).suffix := by
  rw [completionSuffix, completeFragment, String.toList_ofList, suffix_completeText]
  by_cases hcore : (FragmentParts.ofText text.toList).core = []
  · rw [completed_of_core_eq_nil hcore, rescan, firstScan, hcore, suffix_scanText_nil,
      List.append_nil, suffix_scanText_nil]
  · rw [firstScan_completed hcore]

/-- The row that completes a table head completes it for good. -/
theorem suffix_rescan_of_separatorRow? {text row : List Char}
    (hcore : (FragmentParts.ofText text).core ≠ []) (hfence : (firstScan text).fence = none)
    (hrow : separatorRow? (FragmentParts.ofText text).core
      (startsWithLineBreak (FragmentParts.ofText text).trailing) = some row) :
    (rescan text).suffix = [] := by
  rw [firstScan, fence_scanText] at hfence
  have hsuffix : (firstScan text).suffix = '\n' :: row := by
    rw [firstScan, scanText_of_separatorRow?_eq_some hfence hrow]
  have hcoreLast := List.getLast?_eq_some_getLast hcore
  have hink := (FragmentParts.isCut_ofText text).last _ hcoreLast
  rw [lineBreakFollows_of_separatorRow? hrow] at hrow
  obtain ⟨hscan, hnone⟩ := ScanState.scanLines_append_row hcoreLast hink hfence hrow
  rw [rescan, hsuffix]
  exact suffix_scanText_of_scanLines_eq_empty hscan (hnone _)

/-- The closers of a core that stops at a letter or a digit complete it for good, if all of them
count. -/
theorem suffix_rescan_of_isAlphanum {text : List Char} {c : Char}
    (hlast : (FragmentParts.ofText text).core.getLast? = some c) (hc : c.isAlphanum = true)
    (hfence : (firstScan text).fence = none)
    (hcount : ClosersCount
      (ScanState.empty.scanLines (splitLines (FragmentParts.ofText text).core)).inline.stack) :
    (rescan text).suffix = [] := by
  have hcore : (FragmentParts.ofText text).core ≠ [] := by
    intro hnil
    rw [hnil] at hlast
    exact absurd hlast (by simp)
  have hrow := separatorRow?_of_getLast? hlast (isBlankChar_of_isAlphanum hc)
    (ne_of_isAlphanum hc (by decide))
  rw [firstScan, fence_scanText] at hfence
  have hsuffix : (firstScan text).suffix =
      (ScanState.empty.scanLines (splitLines (FragmentParts.ofText text).core)).inline.suffix := by
    rw [firstScan, scanText_of_separatorRow?_eq_none hfence (hrow _)]
  have hscan := ScanState.scanLines_append_suffix hlast hc hfence hcount
  rw [rescan]
  refine suffix_scanText_of_scanLines_eq_empty (by rw [hsuffix]; exact hscan) ?_
  by_cases hnil : (firstScan text).suffix = []
  · rw [hnil, List.append_nil]
    exact hrow _
  · exact separatorRow?_append_suffix hcore hnil _

/-- Completing a fragment twice is completing it once exactly if the scan of the core with its
closers finds nothing to close, and what it finds is what the second completion adds. Nothing is
found if the core needs no closers. With a fence open, nothing is found exactly if the fence takes
its closer for one. It is so for every table head, and for a core that stops at a letter or a digit
and whose closers count. -/
theorem completesOnce_iff (text : String) :
    (CompletesOnce text ↔ (rescan text.toList).suffix = []) ∧
      completionSuffix (completeFragment text) = String.ofList (rescan text.toList).suffix ∧
      ((firstScan text.toList).suffix = [] → CompletesOnce text) ∧
      (∀ f, (firstScan text.toList).fence = some f →
        (CompletesOnce text ↔
          f.closer = [] ∨ 0 < f.partialClose ∨ f.step f.closingLine true = none)) ∧
      (∀ row, (firstScan text.toList).fence = none →
        separatorRow? (FragmentParts.ofText text.toList).core
          (startsWithLineBreak (FragmentParts.ofText text.toList).trailing) = some row →
        CompletesOnce text) ∧
      (∀ c, (FragmentParts.ofText text.toList).core.getLast? = some c → c.isAlphanum = true →
        (firstScan text.toList).fence = none →
        ClosersCount (ScanState.empty.scanLines
          (splitLines (FragmentParts.ofText text.toList).core)).inline.stack →
        CompletesOnce text) := by
  have honce := completesOnce_iff_suffix_rescan text
  refine ⟨honce, completionSuffix_completeFragment text, fun hnil => honce.mpr ?_,
    fun f hfence => honce.trans ?_, fun row hfence hrow => honce.mpr ?_,
    fun c hlast hc hfence hcount => honce.mpr ?_⟩
  · rw [rescan, hnil, List.append_nil]
    exact hnil
  · have hcloser : (firstScan text.toList).suffix = f.closer := by
      rw [firstScan, fence_scanText] at hfence
      rw [firstScan, scanText_of_fence_eq_some hfence]
    rw [rescan, hcloser]
    exact suffix_scanText_append_closer_eq_nil_iff hfence
  · by_cases hcore : (FragmentParts.ofText text.toList).core = []
    · rw [rescan, firstScan, hcore, suffix_scanText_nil, List.append_nil, suffix_scanText_nil]
    · exact suffix_rescan_of_separatorRow? hcore hfence hrow
  · exact suffix_rescan_of_isAlphanum hlast hc hfence hcount

/-- The backslash at the end of a formula escapes the dollar sign that is meant to close it. -/
theorem not_completesOnce_of_backslash :
    completeFragment "$a\\" = "$a\\$" ∧ completeFragment "$a\\$" = "$a\\$$" ∧
      ¬∀ text : String, completeFragment (completeFragment text) = completeFragment text := by
  have honce : completeFragment "$a\\" = "$a\\$" := by cbv
  have htwice : completeFragment "$a\\$" = "$a\\$$" := by cbv
  refine ⟨honce, htwice, fun h => ?_⟩
  have heq := h "$a\\"
  rw [honce, htwice] at heq
  exact absurd heq (by decide)

end LiveMarkdown
