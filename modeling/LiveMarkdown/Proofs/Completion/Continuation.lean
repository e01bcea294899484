import LiveMarkdown.Proofs.Completion.Lines
import Mathlib.Data.List.TakeWhile

/-!
# Text that goes on

A text that stops at a letter or a digit is scanned in the same way when more text follows. No run
of characters ends where the text ends, so nothing that has been decided about the text depends on
its end. What follows is then scanned from the state that the text has left. Two exceptions remain.
A task marker that the end of the text cuts short is taken for one, and a number may turn into a
list marker.

## Main definitions

* `PlainEnd`: the text has no other last character than a letter or a digit.
* `InlineLine.Continues`: the two views of a line before and after it goes on.
* `IsCutTask`: a task marker that is cut short.

## Main results

* `InlineState.step_append`, `InlineState.scan_append`: the scan of a line that goes on.
* `InlineState.IsQuiet.scan_of_plainEnd`: at a letter or a digit nothing is cut short.
-/

namespace LiveMarkdown

/-! ### Letters and digits -/

section Alphanum

variable {c : Char}

theorem toNat_of_isAlphanum (h : c.isAlphanum = true) :
    (48 ≤ c.toNat ∧ c.toNat ≤ 57) ∨ (65 ≤ c.toNat ∧ c.toNat ≤ 90) ∨
      (97 ≤ c.toNat ∧ c.toNat ≤ 122) := by
  rcases Bool.or_eq_true_iff.mp h with halpha | hdigit
  · right
    rcases Bool.or_eq_true_iff.mp halpha with hupper | hlower
    · obtain ⟨hlow, hhigh⟩ : 'A'.val ≤ c.val ∧ c.val ≤ 'Z'.val := of_decide_eq_true hupper
      exact Or.inl ⟨UInt32.le_iff_toNat_le.mp hlow, UInt32.le_iff_toNat_le.mp hhigh⟩
    · obtain ⟨hlow, hhigh⟩ := Bool.and_eq_true_iff.mp hlower
      exact Or.inr ⟨UInt32.le_iff_toNat_le.mp (of_decide_eq_true hlow),
        UInt32.le_iff_toNat_le.mp (of_decide_eq_true hhigh)⟩
  · exact Or.inl (Char.isDigit_iff_toNat.mp hdigit)

theorem isSpace_of_isAlphanum (h : c.isAlphanum = true) : isSpace c = false := by
  have hcode := toNat_of_isAlphanum h
  simp only [isSpace, isSpaceCode, Bool.or_eq_false_iff, beq_eq_false_iff_ne, Bool.and_eq_false_iff,
    decide_eq_false_iff_not]
  omega

theorem isAsciiWhiteSpace_of_isAlphanum (h : c.isAlphanum = true) :
    isAsciiWhiteSpace c = false := by
  have hcode := toNat_of_isAlphanum h
  simp only [isAsciiWhiteSpace, isAsciiWhiteSpaceCode, Bool.or_eq_false_iff, beq_eq_false_iff_ne,
    Bool.and_eq_false_iff, decide_eq_false_iff_not]
  omega

theorem isBlankChar_of_isAlphanum (h : c.isAlphanum = true) : isBlankChar c = false := by
  have hcode := toNat_of_isAlphanum h
  simp only [isBlankChar, Bool.or_eq_false_iff, beq_eq_false_iff_ne, Bool.and_eq_false_iff,
    decide_eq_false_iff_not]
  omega

theorem ofChar?_of_isAlphanum (h : c.isAlphanum = true) :
    CharClass.ofChar? (some c) ≠ .whiteSpace := by
  have hcode := toNat_of_isAlphanum h
  have hspace : isWhiteSpaceCode c.toNat = false := by
    simp only [isWhiteSpaceCode, isLineBreakCode, Bool.or_eq_false_iff, beq_eq_false_iff_ne]
    refine ⟨isSpace_of_isAlphanum h, ?_⟩
    omega
  rw [CharClass.ofChar?, Option.map_some, CharClass.ofCode, if_neg (by simp [hspace])]
  split
  · simp
  · split <;> simp

theorem ne_of_isAlphanum (h : c.isAlphanum = true) {x : Char} (hx : x.isAlphanum = false) :
    c ≠ x := by
  rintro rfl
  exact absurd (h.symm.trans hx) (by decide)

theorem markersOf?_of_isAlphanum (h : c.isAlphanum = true) : markersOf? c = none := by
  unfold markersOf?
  split <;> first | rfl | exact absurd h (by decide)

theorem isAlphanum_of_markersOf? {markers : Marker × Marker} (h : markersOf? c = some markers) :
    c.isAlphanum = false := by
  refine Bool.eq_false_iff.mpr fun hc => ?_
  rw [markersOf?_of_isAlphanum hc] at h
  exact absurd h (by simp)

theorem fenceMark_of_isAlphanum (h : c.isAlphanum = true) : FenceMark.ofChar? c = none := by
  rw [FenceMark.ofChar?, if_neg (ne_of_isAlphanum h (by decide)),
    if_neg (ne_of_isAlphanum h (by decide))]

end Alphanum

/-! ### Plain ends -/

/-- The text has no other last character than a letter or a digit. -/
def PlainEnd (cs : List Char) : Prop :=
  ∀ c, cs.getLast? = some c → c.isAlphanum = true

theorem drop_ne_nil_of_lt {cs : List Char} {n : Nat} (h : n < cs.length) : cs.drop n ≠ [] := by
  rw [ne_eq, List.drop_eq_nil_iff]
  exact Nat.not_le_of_lt h

theorem head?_append_of_ne_nil {cs : List Char} (h : cs ≠ []) (ds : List Char) :
    (cs ++ ds).head? = cs.head? := by
  obtain ⟨x, xs, rfl⟩ := List.exists_cons_of_ne_nil h
  rfl

theorem plainEnd_of_getLast? {cs : List Char} {c : Char} (h : cs.getLast? = some c)
    (hc : c.isAlphanum = true) :
    PlainEnd cs :=
  fun _ hx => Option.some.inj (h.symm.trans hx) ▸ hc

namespace PlainEnd

variable {cs ds : List Char}

theorem of_suffix (h : PlainEnd cs) (hds : ds <:+ cs) : PlainEnd ds := by
  obtain ⟨front, rfl⟩ := hds
  intro c hc
  exact h c (by rw [List.getLast?_append, hc, Option.some_or])

theorem of_cons {c : Char} (h : PlainEnd (c :: cs)) : PlainEnd cs :=
  h.of_suffix (List.suffix_cons c cs)

theorem drop (h : PlainEnd cs) (n : Nat) : PlainEnd (cs.drop n) :=
  h.of_suffix (List.drop_suffix n cs)

theorem head_of_singleton {c : Char} (h : PlainEnd [c]) : c.isAlphanum = true :=
  h c rfl

theorem exists_mem (h : PlainEnd cs) (hne : cs ≠ []) : ∃ c ∈ cs, c.isAlphanum = true :=
  ⟨cs.getLast hne, List.getLast_mem hne, h _ (List.getLast?_eq_some_getLast hne)⟩

/-- A test that fails on letters and digits stops before the end. -/
theorem length_takeWhile_lt (h : PlainEnd cs) (hne : cs ≠ []) {p : Char → Bool}
    (hp : ∀ c, c.isAlphanum = true → p c = false) : (cs.takeWhile p).length < cs.length := by
  obtain ⟨c, hc, hplain⟩ := h.exists_mem hne
  refine Nat.lt_of_le_of_ne (List.takeWhile_prefix p).length_le fun heq => ?_
  have hall : cs.takeWhile p = cs := (List.takeWhile_prefix p).eq_of_length heq
  have hcp := List.takeWhile_eq_self_iff.mp hall c hc
  exact absurd ((hp c hplain).symm.trans hcp) Bool.false_ne_true

theorem runLength_lt (h : PlainEnd cs) (hne : cs ≠ []) {x : Char} (hx : x.isAlphanum = false) :
    runLength x cs < cs.length :=
  h.length_takeWhile_lt hne fun _ hc => beq_eq_false_iff_ne.mpr (ne_of_isAlphanum hc hx)

theorem runLength_append (h : PlainEnd cs) (hne : cs ≠ []) {x : Char} (hx : x.isAlphanum = false) :
    runLength x (cs ++ ds) = runLength x cs := by
  have hlt := h.runLength_lt hne hx
  rw [runLength] at hlt
  rw [runLength, List.takeWhile_append, if_neg (Nat.ne_of_lt hlt)]
  rfl

theorem drop_runLength_append (h : PlainEnd cs) (hne : cs ≠ []) {x : Char}
    (hx : x.isAlphanum = false) :
    (cs ++ ds).drop (runLength x cs) = cs.drop (runLength x cs) ++ ds :=
  List.drop_append_of_le_length (Nat.le_of_lt (h.runLength_lt hne hx))

theorem drop_runLength_ne_nil (h : PlainEnd cs) (hne : cs ≠ []) {x : Char}
    (hx : x.isAlphanum = false) :
    cs.drop (runLength x cs) ≠ [] :=
  drop_ne_nil_of_lt (h.runLength_lt hne hx)

/-- Behind a run of other characters the text goes on as before. -/
theorem head?_drop_runLength_append (h : PlainEnd cs) (hne : cs ≠ []) {x : Char}
    (hx : x.isAlphanum = false) :
    (cs.drop (runLength x cs) ++ ds).head? = (cs.drop (runLength x cs)).head? :=
  head?_append_of_ne_nil (h.drop_runLength_ne_nil hne hx) ds

/-- A run of other characters does not end where the text ends. -/
theorem isEmpty_drop_runLength (h : PlainEnd cs) (hne : cs ≠ []) {x : Char}
    (hx : x.isAlphanum = false) :
    (cs.drop (runLength x cs)).isEmpty = false :=
  List.isEmpty_eq_false_iff.mpr (h.drop_runLength_ne_nil hne hx)

theorem isEmpty_drop_runLength_append (h : PlainEnd cs) (hne : cs ≠ []) {x : Char}
    (hx : x.isAlphanum = false) : (cs.drop (runLength x cs) ++ ds).isEmpty = false :=
  List.isEmpty_eq_false_iff.mpr
    (List.append_ne_nil_of_left_ne_nil (h.drop_runLength_ne_nil hne hx) ds)

end PlainEnd

theorem getLast?_of_suffix {cs ds : List Char} (h : ds <:+ cs) (hne : ds ≠ []) :
    ds.getLast? = cs.getLast? := by
  obtain ⟨front, rfl⟩ := h
  rw [List.getLast?_append, List.getLast?_eq_some_getLast hne, Option.some_or]

/-! ### Steps on a line that goes on -/

/-- The view of the same line when it holds `n` more characters. -/
structure InlineLine.Continues (line line' : InlineLine) (n : Nat) : Prop where
  listItem_eq : line'.listItem = line.listItem
  contentLength_eq : line'.contentLength = line.contentLength + n

/-- What is ahead is the content of a list item and a task marker that lacks its closing bracket. -/
def IsCutTask (line : InlineLine) (cs : List Char) : Prop :=
  line.listItem = true ∧ line.contentLength = 2 ∧ (cs = ['[', 'x'] ∨ cs = ['[', 'X'])

namespace InlineState

variable {line line' : InlineLine} {st : InlineState} {before : List Char} {c : Char}
  {ahead more : List Char}

/-- A letter or a digit opens and closes nothing. -/
theorem step_of_isAlphanum (hc : c.isAlphanum = true) : st.step line before c ahead = (st, 0) := by
  have hne : ∀ x : Char, x.isAlphanum = false → c ≠ x := fun x hx => ne_of_isAlphanum hc hx
  unfold step
  split
  · rw [if_neg (hne _ (by decide))]
  · rw [if_neg (hne _ (by decide)), if_neg (hne _ (by decide))]
  · rw [if_neg (hne _ (by decide)), if_neg (hne _ (by decide)), if_neg (hne _ (by decide))]
  · unfold stepMarkup
    split
    case h_7 => rw [markersOf?_of_isAlphanum hc]
    all_goals exact absurd hc (by decide)

theorem stepColon_append (hmore : (more.dropWhile isShortcodeChar).head? ≠ some ':') :
    st.stepColon (ahead ++ more) = st.stepColon ahead := by
  simp only [stepColon]
  by_cases hall : ahead.takeWhile isShortcodeChar = ahead
  · -- The name may go on, but no colon ends it.
    have hname : (ahead ++ more).takeWhile isShortcodeChar =
        ahead ++ more.takeWhile isShortcodeChar := by
      rw [List.takeWhile_append, if_pos (congrArg List.length hall)]
    have hrest : (ahead ++ more).drop (ahead ++ more.takeWhile isShortcodeChar).length =
        more.dropWhile isShortcodeChar := by
      have hsplit := List.takeWhile_append_dropWhile (p := isShortcodeChar) (l := more)
      calc (ahead ++ more).drop (ahead ++ more.takeWhile isShortcodeChar).length
          = (ahead ++ more.takeWhile isShortcodeChar ++ more.dropWhile isShortcodeChar).drop
              (ahead ++ more.takeWhile isShortcodeChar).length := by
            rw [List.append_assoc, hsplit]
        _ = more.dropWhile isShortcodeChar := List.drop_left
    rw [hname, hrest, hall, List.drop_length, if_neg (by simp [hmore]), if_neg (by simp)]
  · have hlt : (ahead.takeWhile isShortcodeChar).length < ahead.length := by
      refine Nat.lt_of_le_of_ne (List.takeWhile_prefix _).length_le fun heq => ?_
      exact hall ((List.takeWhile_prefix _).eq_of_length heq)
    have hname : (ahead ++ more).takeWhile isShortcodeChar = ahead.takeWhile isShortcodeChar := by
      rw [List.takeWhile_append, if_neg (Nat.ne_of_lt hlt)]
    rw [hname, List.drop_append_of_le_length (Nat.le_of_lt hlt),
      head?_append_of_ne_nil (drop_ne_nil_of_lt hlt)]

theorem taskMarker?_append (final final' : Bool) (hahead : PlainEnd ahead) (hne : ahead ≠ [])
    (hcut : ahead = ['x'] ∨ ahead = ['X'] → final = false ∧ ∃ y ∈ more.head?, y ≠ ']') :
    taskMarker? final' (ahead ++ more) = taskMarker? final ahead := by
  cases ahead with
  | nil => exact absurd rfl hne
  | cons x xs =>
    cases xs with
    | nil =>
      by_cases hmark : x = 'x' ∨ x = 'X'
      · obtain ⟨rfl, y, hy, hbracket⟩ := hcut (by simpa using hmark)
        obtain ⟨ys, rfl⟩ := List.head?_eq_some_iff.mp hy
        simp [taskMarker?, hbracket]
      · have hx : (x == ' ' || x == 'x' || x == 'X') = false := by
          have hspace := ne_of_isAlphanum hahead.head_of_singleton (x := ' ') (by decide)
          simpa [hspace] using hmark
        have hnone : taskMarker? final [x] = none := by simp [taskMarker?, hx]
        rw [hnone]
        cases more with
        | nil => simp [taskMarker?, hx]
        | cons y ys =>
          simp only [List.cons_append, List.nil_append, taskMarker?, hx, Bool.false_and,
            Bool.false_eq_true, if_false]
    | cons y ys =>
      cases ys with
      | nil =>
        have hy : y ≠ ']' := ne_of_isAlphanum hahead.of_cons.head_of_singleton (by decide)
        simp [taskMarker?, hy]
      | cons z zs => rfl

theorem taskMarker?_le {final : Bool} {k : Nat} (h : taskMarker? final ahead = some k) :
    k ≤ ahead.length := by
  unfold taskMarker? at h
  split at h
  · split at h
    · exact Option.some.inj h ▸ Nat.le_refl _
    · simp at h
  · split at h
    · exact Option.some.inj h ▸ Nat.le_refl _
    · simp at h
  · obtain ⟨-, h⟩ := Option.ite_none_right_eq_some.mp h
    obtain rfl := Option.some.inj h
    simp

section Append

variable (hahead : PlainEnd ahead) (hne : ahead ≠ [])

include hahead hne

theorem stepBackticks_append :
    st.stepBackticks line' (ahead ++ more) = st.stepBackticks line ahead := by
  simp only [stepBackticks, hahead.runLength_append hne (x := '`') (by decide),
    hahead.drop_runLength_append hne (x := '`') (by decide),
    hahead.isEmpty_drop_runLength_append hne (x := '`') (by decide),
    hahead.isEmpty_drop_runLength hne (x := '`') (by decide), Bool.and_false]

theorem stepDollars_append :
    st.stepDollars line' before (ahead ++ more) = st.stepDollars line before ahead := by
  simp only [stepDollars, hahead.runLength_append hne (x := '$') (by decide),
    hahead.drop_runLength_append hne (x := '$') (by decide),
    hahead.head?_drop_runLength_append hne (x := '$') (by decide),
    hahead.isEmpty_drop_runLength_append hne (x := '$') (by decide),
    hahead.isEmpty_drop_runLength hne (x := '$') (by decide), Bool.and_false]

theorem stepDelimiters_append (hc : c.isAlphanum = false) (single double : Marker) :
    st.stepDelimiters line' before c single double (ahead ++ more) =
      st.stepDelimiters line before c single double ahead := by
  simp only [stepDelimiters, hahead.runLength_append hne hc, hahead.drop_runLength_append hne hc,
    hahead.head?_drop_runLength_append hne hc,
    hahead.isEmpty_drop_runLength_append hne hc, hahead.isEmpty_drop_runLength hne hc,
    Bool.and_false]

theorem stepOpenBracket_append (hline : line.Continues line' more.length)
    (hcut : IsCutTask line ('[' :: ahead) → line.final = false ∧ ∃ y ∈ more.head?, y ≠ ']') :
    st.stepOpenBracket line' before (ahead ++ more) = st.stepOpenBracket line before ahead := by
  have hstart : ((ahead ++ more).length + 1 == line'.contentLength) =
      (ahead.length + 1 == line.contentLength) := by
    rw [hline.contentLength_eq, List.length_append, Bool.eq_iff_iff, beq_iff_eq, beq_iff_eq]
    omega
  simp only [stepOpenBracket, hstart, hline.listItem_eq, head?_append_of_ne_nil hne]
  by_cases htask : (line.listItem && ahead.length + 1 == line.contentLength) = true
  · obtain ⟨hitem, hlength⟩ := Bool.and_eq_true_iff.mp htask
    have hlength := beq_iff_eq.mp hlength
    rw [if_pos htask, if_pos htask, taskMarker?_append line.final line'.final hahead hne]
    rintro (rfl | rfl)
    · exact hcut ⟨hitem, hlength.symm, Or.inl rfl⟩
    · exact hcut ⟨hitem, hlength.symm, Or.inr rfl⟩
  · rw [if_neg htask, if_neg htask]

omit hahead in
theorem stepCloseBracket_append :
    st.stepCloseBracket line' (ahead ++ more) = st.stepCloseBracket line ahead := by
  obtain ⟨x, xs, rfl⟩ := List.exists_cons_of_ne_nil hne
  unfold stepCloseBracket
  by_cases hx : x = '('
  · subst hx
    rfl
  · simp [hx]

end Append

/-- A step on a line that goes on is the step on the line as it was. A task marker is an exception
if it was cut short by the end of the text, or is completed by what follows. -/
theorem step_append (hplain : PlainEnd (c :: ahead)) (hline : line.Continues line' more.length)
    (hcut : IsCutTask line (c :: ahead) → line.final = false ∧ ∃ y ∈ more.head?, y ≠ ']')
    (hmore : (more.dropWhile isShortcodeChar).head? ≠ some ':') :
    st.step line' before c (ahead ++ more) = st.step line before c ahead := by
  by_cases hne : ahead = []
  · subst hne
    rw [step_of_isAlphanum hplain.head_of_singleton, step_of_isAlphanum hplain.head_of_singleton]
  have hahead := hplain.of_cons
  unfold step
  split
  · simp only [hahead.runLength_append hne (x := '`') (by decide)]
  · simp only [hahead.runLength_append hne (x := '$') (by decide),
      hahead.drop_runLength_append hne (x := '$') (by decide),
      hahead.head?_drop_runLength_append hne (x := '$') (by decide)]
  · rfl
  · unfold stepMarkup
    split
    · simp only [stepBackslash, head?_append_of_ne_nil hne]
    · exact stepBackticks_append hahead hne
    · exact stepDollars_append hahead hne
    · exact stepOpenBracket_append hahead hne hline hcut
    · exact stepCloseBracket_append hne
    · exact stepColon_append hmore
    · split
      · rename_i single double hmarkers
        exact stepDelimiters_append hahead hne (isAlphanum_of_markersOf? hmarkers) single double
      · rfl

theorem stepOpenBracket_le : (st.stepOpenBracket line before ahead).2 ≤ ahead.length := by
  unfold stepOpenBracket
  simp only
  split
  · rename_i k hk
    split at hk
    · exact taskMarker?_le hk
    · simp at hk
  · exact Nat.zero_le _

theorem stepColon_le : (st.stepColon ahead).2 ≤ ahead.length := by
  unfold stepColon
  simp only
  split
  · rename_i hname
    obtain ⟨-, hcolon⟩ := Bool.and_eq_true_iff.mp hname
    refine Nat.lt_of_not_le fun hle => ?_
    rw [List.drop_eq_nil_iff.mpr hle] at hcolon
    simp at hcolon
  · exact Nat.zero_le _

/-- A step that the text goes on from takes no more characters than there are. -/
theorem step_le (hplain : PlainEnd (c :: ahead)) :
    (st.step line before c ahead).2 ≤ ahead.length := by
  by_cases hne : ahead = []
  · subst hne
    rw [step_of_isAlphanum hplain.head_of_singleton]
    exact Nat.le_refl _
  have hpos : 1 ≤ ahead.length := List.length_pos_iff.mpr hne
  have hrun : ∀ x, runLength x ahead ≤ ahead.length := fun x => (List.takeWhile_prefix _).length_le
  unfold step
  split
  · split
    · exact hrun '`'
    · exact Nat.zero_le _
  · split
    · exact hpos
    · split
      · exact hrun '$'
      · exact Nat.zero_le _
  · repeat' split
    all_goals first | exact hpos | exact Nat.zero_le _
  · unfold stepMarkup
    split
    · unfold stepBackslash
      simp only
      split
      · exact hpos
      · exact Nat.zero_le _
    · unfold stepBackticks
      simp only
      split <;> exact hrun '`'
    · unfold stepDollars
      simp only
      repeat' split
      all_goals exact hrun '$'
    · exact stepOpenBracket_le
    · unfold stepCloseBracket
      repeat' split
      all_goals first | exact Nat.zero_le _ | exact hpos
    · exact stepColon_le
    · split
      · unfold stepDelimiters
        simp only
        split <;> exact hrun c
      · exact Nat.zero_le _

/-- The scan of a line that goes on is the scan of the line as it was, and of what follows from
there. -/
theorem scan_append (st : InlineState) (before : List Char) (hplain : PlainEnd ahead)
    (hline : line.Continues line' more.length)
    (hcut : ∀ cs, cs <:+ ahead → IsCutTask line cs → line.final = false ∧ ∃ y ∈ more.head?, y ≠ ']')
    (hmore : (more.dropWhile isShortcodeChar).head? ≠ some ':') :
    InlineState.scan line' st before (ahead ++ more) =
      InlineState.scan line' (InlineState.scan line st before ahead) (ahead.reverse ++ before)
        more := by
  fun_induction InlineState.scan line st before ahead with
  | case1 => rfl
  | case2 st before c ahead next ih =>
    have hle : next.2 ≤ ahead.length := step_le hplain
    have hstep : st.step line' before c (ahead ++ more) = next :=
      step_append hplain hline (hcut _ (List.suffix_refl _)) hmore
    have hsuffix : ahead.drop next.2 <:+ c :: ahead :=
      (List.drop_suffix _ _).trans (List.suffix_cons c ahead)
    rw [List.cons_append, InlineState.scan, hstep, List.take_append_of_le_length hle,
      List.drop_append_of_le_length hle,
      ih (hplain.of_suffix hsuffix) fun cs hcs => hcut cs (hcs.trans hsuffix)]
    congr 1
    rw [← List.append_assoc, ← List.reverse_append, List.take_append_drop, List.reverse_cons,
      List.append_assoc, List.singleton_append]

/-- At a letter or a digit nothing is cut short. -/
theorem IsQuiet.scan_of_plainEnd (h : st.IsQuiet) (hplain : PlainEnd ahead) :
    (InlineState.scan line st before ahead).IsQuiet := by
  fun_induction InlineState.scan line st before ahead with
  | case1 => exact h
  | case2 st before c ahead next ih =>
    have hdrop : PlainEnd (ahead.drop next.2) := hplain.of_cons.drop _
    rcases restStep_step line st before c ahead with ⟨hpartial, hlabel⟩ | ⟨-, hrun, hend⟩
    · exact ih ⟨hpartial.trans h.1, hlabel.trans h.2⟩ hdrop
    · have hc : c.isAlphanum = false := by
        rcases hend with ⟨rfl, -⟩ | ⟨hmarker, -⟩
        · decide
        · obtain ⟨markers, hmarkers⟩ := Option.isSome_iff_exists.mp hmarker
          exact isAlphanum_of_markersOf? hmarkers
      by_cases hne : ahead = []
      · subst hne
        exact absurd (hplain.head_of_singleton.symm.trans hc) (by simp)
      · exact absurd hrun (hplain.of_cons.drop_runLength_ne_nil hne hc)

end InlineState

end LiveMarkdown
