import LiveMarkdown.Proofs.Completion.Continuation

/-!
# Lines that go on

The shape of a line that stops at a letter or a digit does not depend on what follows: it is no
thematic break, no blank line and no row, and keeps its containers, its heading and its fence. The
exception is a number at the start of its content, which a point or a closing parenthesis turns into
a list marker.

## Main results

* `ContainerLead.read_append`: the container markers of a line that goes on.
* `isThematicBreak_append`, `isBlankLine_append`, `isAtxHeading_append`, `isPipeRow_of_plainEnd`:
  the shape of a line that goes on.
* `openFence?_append`: such a line opens no fence that it has not opened before.
-/

namespace LiveMarkdown

variable {cs more : List Char}

theorem PlainEnd.ne_nil_of_cons {x : Char} (h : PlainEnd (x :: cs)) (hx : x.isAlphanum = false) :
    cs ≠ [] := by
  rintro rfl
  exact absurd (h.head_of_singleton.symm.trans hx) (by decide)

/-! ### Spaces and markers in front -/

theorem dropSpaces_append {n : Nat} (h : dropSpaces n cs ≠ []) :
    dropSpaces n (cs ++ more) = dropSpaces n cs ++ more := by
  fun_induction dropSpaces n cs with
  | case1 n cs ih => exact ih h
  | case2 n cs hcs =>
    obtain ⟨x, xs, rfl⟩ := List.exists_cons_of_ne_nil h
    rw [List.cons_append, dropSpaces]
    rintro k rest rfl hrest
    obtain ⟨rfl, -⟩ := List.cons.inj hrest
    exact hcs k xs rfl rfl

theorem PlainEnd.dropSpaces_ne_nil (h : PlainEnd cs) (hne : cs ≠ []) (n : Nat) :
    dropSpaces n cs ≠ [] := by
  fun_induction dropSpaces n cs with
  | case1 n cs ih => exact ih h.of_cons (h.ne_nil_of_cons (by decide))
  | case2 n cs hcs => exact hne

theorem endsMarker_append (h : cs ≠ []) : endsMarker (cs ++ more) = endsMarker cs := by
  obtain ⟨x, xs, rfl⟩ := List.exists_cons_of_ne_nil h
  rfl

/-- The digits that may number a list marker. -/
def leadingDigits (cs : List Char) : List Char :=
  (cs.take 9).takeWhile Char.isDigit

theorem leadingDigits_append (h : (leadingDigits cs).length < cs.length) :
    leadingDigits (cs ++ more) = leadingDigits cs := by
  unfold leadingDigits at *
  rw [List.take_append, List.takeWhile_append]
  split
  · rename_i hall
    rw [hall, List.length_take] at h
    have hzero : 9 - cs.length = 0 := by omega
    rw [hzero, List.take_zero, List.takeWhile_nil, List.append_nil]
    exact ((List.takeWhile_prefix _).eq_of_length hall).symm
  · rfl

theorem leadingDigits_append_of_all (h : leadingDigits cs = cs)
    (hmore : ∀ x ∈ more.head?, x.isDigit = false) : leadingDigits (cs ++ more) = cs := by
  have htake : cs.take 9 = cs := by
    refine (List.take_prefix 9 cs).eq_of_length_le ?_
    calc cs.length = (leadingDigits cs).length := by rw [h]
      _ ≤ (cs.take 9).length := (List.takeWhile_prefix _).length_le
  have hrest : ∀ k, (more.take k).takeWhile Char.isDigit = [] := by
    intro k
    cases more with
    | nil => simp
    | cons x xs =>
      cases k with
      | zero => rfl
      | succ k => rw [List.take_succ_cons, List.takeWhile_cons_of_neg (by simp [hmore x rfl])]
  unfold leadingDigits at *
  rw [List.take_append, List.takeWhile_append, htake, if_pos, hrest, List.append_nil]
  rw [htake] at h
  rw [h]

theorem afterOrdinal?_eq (cs : List Char) :
    afterOrdinal? cs =
      if (leadingDigits cs).length = 0 then none
      else
        match cs.drop (leadingDigits cs).length with
        | '.' :: rest => some rest
        | ')' :: rest => some rest
        | _ => none := rfl

theorem leadingDigits_isInit (cs : List Char) : leadingDigits cs <+: cs :=
  (List.takeWhile_prefix _).trans (List.take_prefix 9 cs)

/-- Behind its digits, a marker does not depend on how the text goes on. -/
theorem afterOrdinal?_append (h : (leadingDigits cs).length < cs.length) :
    afterOrdinal? (cs ++ more) = (afterOrdinal? cs).map (· ++ more) := by
  rw [afterOrdinal?_eq, afterOrdinal?_eq, leadingDigits_append h,
    List.drop_append_of_le_length (Nat.le_of_lt h)]
  obtain ⟨x, xs, hdrop⟩ := List.exists_cons_of_ne_nil (drop_ne_nil_of_lt h)
  rw [hdrop, List.cons_append]
  split
  · rfl
  · by_cases hpoint : x = '.'
    · subst hpoint
      rfl
    · by_cases hparen : x = ')'
      · subst hparen
        rfl
      · simp [hpoint, hparen]

theorem afterOrdinal?_append_of_some {rest : List Char} (h : afterOrdinal? cs = some rest) :
    afterOrdinal? (cs ++ more) = some (rest ++ more) := by
  have hlt : (leadingDigits cs).length < cs.length := by
    refine Nat.lt_of_not_le fun hle => ?_
    rw [afterOrdinal?_eq, List.drop_eq_nil_iff.mpr hle] at h
    split at h <;> simp at h
  rw [afterOrdinal?_append hlt, h, Option.map_some]

theorem afterListMarker?_cons (c : Char) (cs : List Char) :
    afterListMarker? (c :: cs) =
      (if c = '-' ∨ c = '+' ∨ c = '*' then some cs else afterOrdinal? (c :: cs)).filter
        endsMarker := by
  by_cases hc : c = '-' ∨ c = '+' ∨ c = '*'
  · rw [if_pos hc]
    rcases hc with rfl | rfl | rfl <;> rfl
  · rw [if_neg hc]
    rw [not_or, not_or] at hc
    obtain ⟨hminus, hplus, hstar⟩ := hc
    simp [afterListMarker?, hminus, hplus, hstar]

theorem afterListMarker?_append_of_some {rest : List Char} (h : afterListMarker? cs = some rest)
    (hrest : rest ≠ []) : afterListMarker? (cs ++ more) = some (rest ++ more) := by
  cases cs with
  | nil => simp [afterListMarker?, afterOrdinal?] at h
  | cons c cs =>
    rw [afterListMarker?_cons, Option.filter_eq_some_iff] at h
    obtain ⟨h, hends⟩ := h
    rw [List.cons_append, afterListMarker?_cons, Option.filter_eq_some_iff, endsMarker_append hrest]
    refine ⟨?_, hends⟩
    by_cases hc : c = '-' ∨ c = '+' ∨ c = '*'
    · rw [if_pos hc] at h ⊢
      rw [Option.some.inj h]
    · rw [if_neg hc] at h ⊢
      exact afterOrdinal?_append_of_some h

/-- Without a marker in front, a text that goes on has none either, unless what follows completes
one. -/
theorem afterListMarker?_append_of_none (h : afterListMarker? cs = none) (hplain : PlainEnd cs)
    (hne : cs ≠ []) (hmore : ∀ x ∈ more.head?, x.isDigit = false) :
    afterListMarker? (cs ++ more) = none ∨
      ∃ rest, (more = '.' :: rest ∨ more = ')' :: rest) ∧ endsMarker rest = true ∧
        afterListMarker? (cs ++ more) = some rest := by
  obtain ⟨c, cs, rfl⟩ := List.exists_cons_of_ne_nil hne
  rw [List.cons_append, afterListMarker?_cons, ← List.cons_append]
  rw [afterListMarker?_cons] at h
  by_cases hc : c = '-' ∨ c = '+' ∨ c = '*'
  · left
    have hcs : cs ≠ [] := hplain.ne_nil_of_cons (by rcases hc with rfl | rfl | rfl <;> decide)
    rw [if_pos hc] at h ⊢
    rw [Option.filter_eq_none_iff] at h ⊢
    intro rest hrest
    obtain rfl := Option.some.inj hrest
    rw [endsMarker_append hcs]
    exact h cs rfl
  rw [if_neg hc] at h ⊢
  by_cases hlt : (leadingDigits (c :: cs)).length < (c :: cs).length
  · left
    rw [afterOrdinal?_append hlt]
    rw [Option.filter_eq_none_iff] at h ⊢
    intro rest hrest
    obtain ⟨rest, hordinal, rfl⟩ := Option.map_eq_some_iff.mp hrest
    have hrestNe : rest ≠ [] := by
      obtain ⟨x, hx, hsuffix⟩ := exists_suffix_of_afterOrdinal? hordinal
      exact (hplain.of_suffix hsuffix).ne_nil_of_cons hx
    rw [endsMarker_append hrestNe]
    exact h rest hordinal
  · -- The whole text is a number.
    have hall : leadingDigits (c :: cs) = c :: cs :=
      (leadingDigits_isInit _).eq_of_length_le (Nat.le_of_not_lt hlt)
    rw [afterOrdinal?_eq, leadingDigits_append_of_all hall hmore, List.drop_left, if_neg (by simp)]
    split
    · rename_i rest
      by_cases hends : endsMarker rest = true
      · exact Or.inr ⟨rest, Or.inl rfl, hends, by simp [hends]⟩
      · exact Or.inl (by simp [hends])
    · rename_i rest
      by_cases hends : endsMarker rest = true
      · exact Or.inr ⟨rest, Or.inr rfl, hends, by simp [hends]⟩
      · exact Or.inl (by simp [hends])
    · exact Or.inl rfl

namespace ContainerLead

variable {quoteDepth : Nat} {listItem : Bool}

theorem read_of_quote {rest : List Char} (h : dropSpaces 3 cs = '>' :: rest) :
    read cs quoteDepth listItem = read (afterQuoteMarker rest) (quoteDepth + 1) listItem := by
  rw [read]
  split
  · rename_i rest' heq
    obtain rfl := (List.cons.inj (h.symm.trans heq)).2
    rfl
  · rename_i heq
    exact absurd (h.symm.trans heq) (by simp)
  · rename_i c r hquote heq
    exact absurd (List.cons.inj (heq.symm.trans h)).1 hquote

/-- What is no block quote marker is a list marker or the rest of the line. -/
theorem read_of_ne {c : Char} {r : List Char} (hc : c ≠ '>') (h : dropSpaces 3 cs = c :: r) :
    read cs quoteDepth listItem =
      match afterListMarker? (c :: r) with
      | some rest => read (dropSpaces 4 rest) quoteDepth true
      | none => ⟨cs, quoteDepth, listItem⟩ := by
  rw [read]
  split
  · rename_i heq
    exact absurd (List.cons.inj (h.symm.trans heq)).1 hc
  · rename_i heq
    exact absurd (h.symm.trans heq) (by simp)
  · rename_i c' r' hquote heq
    obtain ⟨rfl, rfl⟩ := List.cons.inj (heq.symm.trans h)
    cases afterListMarker? (c' :: r') <;> rfl

theorem read_of_marker {c : Char} {r rest : List Char} (hc : c ≠ '>') (h : dropSpaces 3 cs = c :: r)
    (hmarker : afterListMarker? (c :: r) = some rest) :
    read cs quoteDepth listItem = read (dropSpaces 4 rest) quoteDepth true := by
  rw [read_of_ne hc h, hmarker]

theorem read_of_none {c : Char} {r : List Char} (hc : c ≠ '>') (h : dropSpaces 3 cs = c :: r)
    (hmarker : afterListMarker? (c :: r) = none) :
    read cs quoteDepth listItem = ⟨cs, quoteDepth, listItem⟩ := by
  rw [read_of_ne hc h, hmarker]

theorem read_nil : read [] quoteDepth listItem = ⟨[], quoteDepth, listItem⟩ := by
  rw [read]
  rfl

theorem rest_ne_nil (hplain : PlainEnd cs) (hne : cs ≠ []) :
    (read cs quoteDepth listItem).rest ≠ [] := by
  fun_induction read cs quoteDepth listItem with
  | case1 cs quoteDepth listItem rest hcs ih =>
    have hquote : PlainEnd ('>' :: rest) := hplain.of_suffix (hcs ▸ dropSpaces_suffix 3 cs)
    have hrest : rest ≠ [] := hquote.ne_nil_of_cons (by decide)
    exact ih (hquote.of_cons.of_suffix (dropSpaces_suffix 1 rest))
      (hquote.of_cons.dropSpaces_ne_nil hrest 1)
  | case2 cs quoteDepth listItem hcs => exact hne
  | case3 cs quoteDepth listItem c r hquote hcs rest hmarker ih =>
    obtain ⟨x, hx, hsuffix⟩ := exists_suffix_of_afterListMarker? hmarker
    have hrest : PlainEnd (x :: rest) :=
      (hplain.of_suffix (hcs ▸ dropSpaces_suffix 3 cs)).of_suffix hsuffix
    exact ih (hrest.of_cons.of_suffix (dropSpaces_suffix 4 rest))
      (hrest.of_cons.dropSpaces_ne_nil (hrest.ne_nil_of_cons hx) 4)
  | case4 cs quoteDepth listItem c r hquote hcs hmarker => exact hne

/-- The markers of a line that goes on are its markers, unless what follows completes one more. -/
theorem read_append (quoteDepth : Nat) (listItem : Bool) (hplain : PlainEnd cs) (hne : cs ≠ [])
    (hmore : ∀ x ∈ more.head?, x.isDigit = false) :
    read (cs ++ more) quoteDepth listItem =
        { read cs quoteDepth listItem with rest := (read cs quoteDepth listItem).rest ++ more } ∨
      ∃ rest depth, (more = '.' :: rest ∨ more = ')' :: rest) ∧ endsMarker rest = true ∧
        read (cs ++ more) quoteDepth listItem = read (dropSpaces 4 rest) depth true := by
  fun_induction read cs quoteDepth listItem with
  | case1 cs quoteDepth listItem rest hcs ih =>
    have hquote : PlainEnd ('>' :: rest) := hplain.of_suffix (hcs ▸ dropSpaces_suffix 3 cs)
    have hrest : rest ≠ [] := hquote.ne_nil_of_cons (by decide)
    have hdrop : dropSpaces 1 rest ≠ [] := hquote.of_cons.dropSpaces_ne_nil hrest 1
    have happend : dropSpaces 3 (cs ++ more) = '>' :: (rest ++ more) := by
      rw [dropSpaces_append (by simp [hcs]), hcs, List.cons_append]
    rw [read_of_quote happend, afterQuoteMarker, dropSpaces_append hdrop]
    exact ih (hquote.of_cons.of_suffix (dropSpaces_suffix 1 rest)) hdrop
  | case2 cs quoteDepth listItem hcs => exact absurd hcs (hplain.dropSpaces_ne_nil hne 3)
  | case3 cs quoteDepth listItem c r hquote hcs rest hmarker ih =>
    obtain ⟨x, hx, hsuffix⟩ := exists_suffix_of_afterListMarker? hmarker
    have hplainRest : PlainEnd (x :: rest) :=
      (hplain.of_suffix (hcs ▸ dropSpaces_suffix 3 cs)).of_suffix hsuffix
    have hrest : rest ≠ [] := hplainRest.ne_nil_of_cons hx
    have hdrop : dropSpaces 4 rest ≠ [] := hplainRest.of_cons.dropSpaces_ne_nil hrest 4
    have happend : dropSpaces 3 (cs ++ more) = c :: (r ++ more) := by
      rw [dropSpaces_append (by simp [hcs]), hcs, List.cons_append]
    have hmarkerAppend : afterListMarker? (c :: (r ++ more)) = some (rest ++ more) :=
      afterListMarker?_append_of_some hmarker hrest
    rw [read_of_marker hquote happend hmarkerAppend, dropSpaces_append hdrop]
    exact ih (hplainRest.of_cons.of_suffix (dropSpaces_suffix 4 rest)) hdrop
  | case4 cs quoteDepth listItem c r hquote hcs hmarker =>
    have hplainHead : PlainEnd (c :: r) := hplain.of_suffix (hcs ▸ dropSpaces_suffix 3 cs)
    have happend : dropSpaces 3 (cs ++ more) = c :: (r ++ more) := by
      rw [dropSpaces_append (by simp [hcs]), hcs, List.cons_append]
    rcases afterListMarker?_append_of_none hmarker hplainHead (by simp) hmore with
      hnone | ⟨rest, heq, hends, hsome⟩
    · exact Or.inl (read_of_none hquote happend hnone)
    · exact Or.inr ⟨rest, quoteDepth, heq, hends, read_of_marker hquote happend hsome⟩

end ContainerLead

/-! ### The shape of the line -/

theorem isThematicBreak_append (hplain : PlainEnd cs) (hne : cs ≠ []) (more : List Char) :
    isThematicBreak (cs ++ more) = false := by
  have hdrop := hplain.dropSpaces_ne_nil hne 3
  obtain ⟨c, r, hcs⟩ := List.exists_cons_of_ne_nil hdrop
  have htail : PlainEnd (c :: r) := hplain.of_suffix (hcs ▸ dropSpaces_suffix 3 cs)
  rw [isThematicBreak, dropSpaces_append hdrop, hcs, List.cons_append]
  simp only
  by_cases hc : c.isAlphanum = true
  · have hne : ∀ x : Char, x.isAlphanum = false → c ≠ x := fun x hx => ne_of_isAlphanum hc hx
    simp [hne '*' (by decide), hne '-' (by decide), hne '_' (by decide)]
  · rw [Bool.not_eq_true] at hc
    obtain ⟨x, hx, hplainX⟩ := htail.of_cons.exists_mem (htail.ne_nil_of_cons hc)
    have hall : (r ++ more).all (fun x => x == c || isSpaceOrTab x) = false := by
      rw [List.all_eq_false]
      refine ⟨x, List.mem_append_left more hx, ?_⟩
      have hne : ∀ y : Char, y.isAlphanum = false → x ≠ y := fun y hy => ne_of_isAlphanum hplainX hy
      simp [isSpaceOrTab, hne c hc, hne ' ' (by decide), hne '\t' (by decide)]
    rw [hall, Bool.and_false, Bool.false_and]

theorem isBlankLine_append (hplain : PlainEnd cs) (hne : cs ≠ []) (more : List Char) :
    isBlankLine (cs ++ more) = false := by
  obtain ⟨c, hc, hplainC⟩ := hplain.exists_mem hne
  rw [isBlankLine, List.all_eq_false]
  exact ⟨c, List.mem_append_left more hc, by simp [isAsciiWhiteSpace_of_isAlphanum hplainC]⟩

theorem isAtxHeading_append (hplain : PlainEnd cs) (hne : cs ≠ []) :
    isAtxHeading (cs ++ more) = isAtxHeading cs := by
  have hsharp : Char.isAlphanum '#' = false := by decide
  have hrun : runLength '#' (cs ++ more) = runLength '#' cs := hplain.runLength_append hne hsharp
  have hlt := hplain.runLength_lt hne hsharp
  obtain ⟨x, xs, hdrop⟩ := List.exists_cons_of_ne_nil (drop_ne_nil_of_lt hlt)
  simp only [isAtxHeading, hrun, List.drop_append_of_le_length (Nat.le_of_lt hlt), hdrop,
    List.cons_append]

/-- A line that ends in ink other than a pipe is no row. -/
theorem isPipeRow_of_getLast? {c : Char} (hlast : cs.getLast? = some c)
    (hblank : isBlankChar c = false) (hpipe : c ≠ '|') : isPipeRow cs = false := by
  have hleftNe : trimLeft cs ≠ [] := by
    rw [trimLeft, ne_eq, List.dropWhile_eq_nil_iff]
    intro hall
    rw [hall c (List.mem_of_getLast? hlast)] at hblank
    exact absurd hblank (by decide)
  obtain ⟨x, front, hrow⟩ := List.exists_cons_of_ne_nil (List.reverse_ne_nil_iff.mpr hleftNe)
  obtain rfl : x = c := by
    have hleft : (trimLeft cs).getLast? = some c :=
      (getLast?_of_suffix (List.dropWhile_suffix _) hleftNe).trans hlast
    rw [List.getLast?_eq_head?_reverse, hrow] at hleft
    exact Option.some.inj hleft
  have htrim : (trim cs).reverse = x :: front := by
    rw [trim, trimRight, List.reverse_reverse, hrow, List.dropWhile_cons_of_neg (by simp [hblank])]
  simp [isPipeRow, htrim, hpipe]

theorem isPipeRow_of_plainEnd (hplain : PlainEnd cs) (hne : cs ≠ []) : isPipeRow cs = false := by
  have hlast := List.getLast?_eq_some_getLast hne
  have hc := hplain _ hlast
  exact isPipeRow_of_getLast? hlast (isBlankChar_of_isAlphanum hc) (ne_of_isAlphanum hc (by decide))

theorem openFence?_append {line content : List Char} {quoteDepth : Nat} (hplain : PlainEnd content)
    (hne : content ≠ []) (h : openFence? line content quoteDepth = none) :
    openFence? (line ++ more) (content ++ more) quoteDepth = none := by
  obtain ⟨c, r, rfl⟩ := List.exists_cons_of_ne_nil hne
  rw [List.cons_append]
  unfold openFence? at h ⊢
  cases hmark : FenceMark.ofChar? c with
  | none => simp only [hmark]
  | some mark =>
    have hc : c.isAlphanum = false := by
      refine Bool.eq_false_iff.mpr fun hc => ?_
      rw [fenceMark_of_isAlphanum hc] at hmark
      exact absurd hmark (by simp)
    have hrun : runLength c (c :: r ++ more) = runLength c (c :: r) :=
      hplain.runLength_append hne hc
    have hlt := hplain.runLength_lt hne hc
    rw [List.cons_append] at hrun
    simp only [hmark, hrun] at h ⊢
    by_cases hshort : runLength c (c :: r) < 3
    · rw [if_pos hshort]
    · rw [if_neg hshort] at h ⊢
      obtain ⟨hinfo, -⟩ | ⟨-, hsome⟩ := ite_eq_iff.mp h
      · obtain ⟨hbacktick, hcontains⟩ := Bool.and_eq_true_iff.mp hinfo
        rw [if_pos]
        rw [← List.cons_append, List.drop_append_of_le_length (Nat.le_of_lt hlt), hbacktick,
          Bool.true_and, List.contains_append, hcontains, Bool.true_or]
      · exact absurd hsome (by simp)

end LiveMarkdown
