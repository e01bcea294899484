import LiveMarkdown.Proofs.Completion.Stack

/-!
# The lines of a scan

A scan treats the last line of a text apart from the lines before it. What follows the text either
makes the last line longer, or starts a line of its own and turns the last line into one that is
passed. Both leave the lines before it as they are, and so the scan of them.

## Main definitions

* `IsLastLine`: a text, its last line and the lines before it.
* `ScanState.passLines`: the scan of lines that are followed by another one.
* `OpenFence.IsSound`, `ScanState.IsReached`: what holds of the state after any lines of a text.
* `InlineState.IsQuiet`: nothing is cut short by the end of the text.

## Main results

* `eq_replicate_append_iff`: the run at the start of a text, and what follows it.
* `IsLastLine.append`, `IsLastLine.newline`: what follows a text continues its last line or starts a
  line.
* `ScanState.scanLines_of_isLastLine`: the scan of a text is the scan of its last line, after the
  others.
* `ScanState.isReached_scanLines`, `ScanState.isQuiet_passLines`: the invariants along the lines.
-/

namespace LiveMarkdown

/-! ### The last line of a text -/

theorem splitLines_cons_of_ne {c : Char} (hc : c ≠ '\n') {cs line : List Char}
    {lines : List (List Char)} (h : splitLines cs = line :: lines) :
    splitLines (c :: cs) = (c :: line) :: lines := by
  rw [splitLines, h]
  · intro heq
    exact hc heq

theorem splitLines_of_not_mem {cs : List Char} (h : '\n' ∉ cs) : splitLines cs = [cs] := by
  induction cs with
  | nil => rfl
  | cons c cs ih =>
    have hc : c ≠ '\n' := (List.ne_of_not_mem_cons h).symm
    exact splitLines_cons_of_ne hc (ih (List.not_mem_of_not_mem_cons h))

theorem splitLines_append_newline (a b : List Char) :
    splitLines (a ++ '\n' :: b) = splitLines a ++ splitLines b := by
  induction a with
  | nil => rfl
  | cons c a ih =>
    by_cases hc : c = '\n'
    · subst hc
      rw [List.cons_append, splitLines, ih, splitLines, List.cons_append]
    · obtain ⟨line, lines, ha⟩ := List.exists_cons_of_ne_nil (splitLines_ne_nil a)
      rw [List.cons_append, splitLines_cons_of_ne hc ha, List.cons_append]
      exact splitLines_cons_of_ne hc (by rw [ih, ha, List.cons_append])

/-- A line consists of characters of its text, and of no line feeds. -/
theorem forall_mem_of_mem_splitLines {text line : List Char} (h : line ∈ splitLines text) :
    ∀ x ∈ line, x ∈ text ∧ x ≠ '\n' := by
  induction text generalizing line with
  | nil =>
    obtain rfl := List.mem_singleton.mp h
    exact List.forall_mem_nil _
  | cons c cs ih =>
    have hmore : ∀ {x}, x ∈ cs ∧ x ≠ '\n' → x ∈ c :: cs ∧ x ≠ '\n' :=
      And.imp_left (List.mem_cons_of_mem c)
    by_cases hc : c = '\n'
    · subst hc
      rcases List.mem_cons.mp h with rfl | h
      · exact List.forall_mem_nil _
      · exact fun x hx => hmore (ih h x hx)
    · obtain ⟨first, lines, hcs⟩ := List.exists_cons_of_ne_nil (splitLines_ne_nil cs)
      rw [splitLines_cons_of_ne hc hcs] at h
      rw [hcs] at ih
      rcases List.mem_cons.mp h with rfl | h
      · exact List.forall_mem_cons.mpr
          ⟨⟨List.mem_cons_self, hc⟩, fun x hx => hmore (ih List.mem_cons_self x hx)⟩
      · exact fun x hx => hmore (ih (List.mem_cons_of_mem _ h) x hx)

theorem subset_of_mem_splitLines {text line : List Char} (h : line ∈ splitLines text) :
    line ⊆ text :=
  fun x hx => (forall_mem_of_mem_splitLines h x hx).1

/-- The text ends in the line `last`, and `lines` are the lines before it. -/
structure IsLastLine (text : List Char) (lines : List (List Char)) (last : List Char) : Prop where
  newline_not_mem : '\n' ∉ last
  text_eq : text = last ∧ lines = [] ∨ ∃ earlier, text = earlier ++ '\n' :: last ∧
    lines = splitLines earlier

theorem exists_isLastLine (text : List Char) : ∃ lines last, IsLastLine text lines last := by
  induction text with
  | nil => exact ⟨[], [], by simp, Or.inl ⟨rfl, rfl⟩⟩
  | cons c cs ih =>
    obtain ⟨lines, last, hlast, ⟨rfl, rfl⟩ | ⟨earlier, rfl, rfl⟩⟩ := ih
    · by_cases hc : c = '\n'
      · subst hc
        exact ⟨[[]], cs, hlast, Or.inr ⟨[], rfl, rfl⟩⟩
      · exact ⟨[], c :: cs, List.not_mem_cons_of_ne_of_not_mem (Ne.symm hc) hlast,
          Or.inl ⟨rfl, rfl⟩⟩
    · exact ⟨splitLines (c :: earlier), last, hlast, Or.inr ⟨c :: earlier, rfl, rfl⟩⟩

namespace IsLastLine

variable {text last rest : List Char} {lines : List (List Char)}

theorem splitLines_eq (h : IsLastLine text lines last) : splitLines text = lines ++ [last] := by
  obtain ⟨hlast, ⟨rfl, rfl⟩ | ⟨earlier, rfl, rfl⟩⟩ := h
  · exact splitLines_of_not_mem hlast
  · rw [splitLines_append_newline, splitLines_of_not_mem hlast]

/-- What follows on the same line makes the last line longer. -/
theorem append (h : IsLastLine text lines last) (hrest : '\n' ∉ rest) :
    IsLastLine (text ++ rest) lines (last ++ rest) := by
  obtain ⟨hlast, ⟨rfl, rfl⟩ | ⟨earlier, rfl, rfl⟩⟩ := h
  · exact ⟨by simp [hlast, hrest], Or.inl ⟨rfl, rfl⟩⟩
  · exact ⟨by simp [hlast, hrest], Or.inr ⟨earlier, by simp, rfl⟩⟩

/-- What follows behind a line feed is a line of its own. -/
theorem newline (h : IsLastLine text lines last) (hrest : '\n' ∉ rest) :
    IsLastLine (text ++ '\n' :: rest) (lines ++ [last]) rest :=
  ⟨hrest, Or.inr ⟨text, rfl, h.splitLines_eq.symm⟩⟩

theorem getLast?_eq (h : IsLastLine text lines last) {c : Char} (hc : c ≠ '\n')
    (htext : text.getLast? = some c) : last.getLast? = some c := by
  obtain ⟨-, ⟨rfl, rfl⟩ | ⟨earlier, rfl, rfl⟩⟩ := h
  · exact htext
  · cases last with
    | nil =>
      rw [List.getLast?_concat, Option.some.injEq] at htext
      exact absurd htext.symm hc
    | cons x xs => simpa [List.getLast?_append] using htext

theorem subset (h : IsLastLine text lines last) : last ⊆ text := by
  refine subset_of_mem_splitLines ?_
  simp [h.splitLines_eq]

theorem subset_of_mem (h : IsLastLine text lines last) {line : List Char} (hline : line ∈ lines) :
    line ⊆ text := by
  refine subset_of_mem_splitLines ?_
  simp [h.splitLines_eq, hline]

end IsLastLine

theorem ScanState.stripReturn_subset (line : List Char) : (stripReturn line).1 ⊆ line := by
  unfold stripReturn
  split
  · exact List.dropLast_subset line
  · exact List.Subset.refl line

theorem ScanState.stripReturn_of_getLast?_ne {line : List Char} (h : line.getLast? ≠ some '\r') :
    stripReturn line = (line, true) := by
  unfold stripReturn
  split
  · rename_i heq
    exact absurd heq h
  · rfl

namespace ScanState

/-- The scan of lines that are followed by another one. -/
def passLines (st : ScanState) (lines : List (List Char)) : ScanState :=
  lines.foldl (fun st line => st.scanLine (stripReturn line).1 false) st

theorem passLines_append (st : ScanState) (lines₁ lines₂ : List (List Char)) :
    st.passLines (lines₁ ++ lines₂) = (st.passLines lines₁).passLines lines₂ :=
  List.foldl_append

theorem scanLines_append (st : ScanState) (lines₁ : List (List Char)) {lines₂ : List (List Char)}
    (h : lines₂ ≠ []) : st.scanLines (lines₁ ++ lines₂) =
      (st.passLines lines₁).scanLines lines₂ := by
  induction lines₁ generalizing st with
  | nil => rfl
  | cons line lines ih =>
    obtain ⟨next, more, hmore⟩ := List.exists_cons_of_ne_nil (l := lines ++ lines₂) (by simp [h])
    rw [List.cons_append, hmore, scanLines, ← hmore, ih]
    · rfl
    · simp

theorem scanLines_concat (st : ScanState) (lines : List (List Char)) (last : List Char) :
    st.scanLines (lines ++ [last]) =
      (st.passLines lines).scanLine (stripReturn last).1 (stripReturn last).2 :=
  scanLines_append st lines (List.cons_ne_nil last [])

/-- The scan of a text is the scan of its last line, after the lines before it. -/
theorem scanLines_of_isLastLine {text last : List Char} {lines : List (List Char)}
    (h : IsLastLine text lines last) (hlast : last.getLast? ≠ some '\r') (st : ScanState) :
    st.scanLines (splitLines text) = (st.passLines lines).scanLine last true := by
  rw [h.splitLines_eq, scanLines_concat, stripReturn_of_getLast?_ne hlast]

end ScanState

/-! ### The parts of a line -/

theorem dropSpaces_suffix (n : Nat) (cs : List Char) : dropSpaces n cs <:+ cs := by
  fun_induction dropSpaces n cs with
  | case1 n cs ih => exact ih.trans (List.suffix_cons _ _)
  | case2 => exact List.suffix_refl _

theorem exists_suffix_of_afterOrdinal? {cs rest : List Char} (h : afterOrdinal? cs = some rest) :
    ∃ x : Char, x.isAlphanum = false ∧ x :: rest <:+ cs := by
  unfold afterOrdinal? at h
  simp only at h
  split at h
  · simp at h
  · split at h
    · rename_i r hr
      exact ⟨'.', by decide, Option.some.inj h ▸ hr ▸ List.drop_suffix _ _⟩
    · rename_i r hr
      exact ⟨')', by decide, Option.some.inj h ▸ hr ▸ List.drop_suffix _ _⟩
    · simp at h

/-- A list marker ends in a character that is neither a letter nor a digit. -/
theorem exists_suffix_of_afterListMarker? {cs rest : List Char}
    (h : afterListMarker? cs = some rest) :
    ∃ x : Char, x.isAlphanum = false ∧ x :: rest <:+ cs := by
  unfold afterListMarker? at h
  simp only [Option.filter_eq_some_iff] at h
  obtain ⟨h, -⟩ := h
  split at h
  · exact ⟨'-', by decide, Option.some.inj h ▸ List.suffix_refl _⟩
  · exact ⟨'+', by decide, Option.some.inj h ▸ List.suffix_refl _⟩
  · exact ⟨'*', by decide, Option.some.inj h ▸ List.suffix_refl _⟩
  · exact exists_suffix_of_afterOrdinal? h

theorem afterListMarker?_suffix {cs rest : List Char} (h : afterListMarker? cs = some rest) :
    rest <:+ cs := by
  obtain ⟨x, -, hsuffix⟩ := exists_suffix_of_afterListMarker? h
  exact (List.suffix_cons x rest).trans hsuffix

theorem ContainerLead.read_rest_suffix (cs : List Char) (quoteDepth : Nat) (listItem : Bool) :
    (ContainerLead.read cs quoteDepth listItem).rest <:+ cs := by
  fun_induction ContainerLead.read cs quoteDepth listItem with
  | case1 cs quoteDepth listItem rest hcs ih =>
    have hrest : rest <:+ cs := (List.suffix_cons '>' rest).trans (hcs ▸ dropSpaces_suffix 3 cs)
    exact (ih.trans (dropSpaces_suffix 1 rest)).trans hrest
  | case2 cs quoteDepth listItem hcs => exact List.suffix_refl _
  | case3 cs quoteDepth listItem c r hquote hcs rest hmarker ih =>
    have hrest : rest <:+ cs :=
      (afterListMarker?_suffix hmarker).trans (hcs ▸ dropSpaces_suffix 3 cs)
    exact (ih.trans (dropSpaces_suffix 4 rest)).trans hrest
  | case4 cs quoteDepth listItem c r hquote hcs hmarker => exact List.suffix_refl _

theorem containerLead_rest_suffix (line : List Char) : (containerLead line).rest <:+ line :=
  ContainerLead.read_rest_suffix line 0 false

/-! ### Runs at the start of a text -/

/-- A text is a run of a character and what follows the run. -/
theorem replicate_runLength_append_drop (c : Char) (cs : List Char) :
    List.replicate (runLength c cs) c ++ cs.drop (runLength c cs) = cs := by
  have hrun : cs.takeWhile (· == c) = List.replicate (runLength c cs) c :=
    List.eq_replicate_iff.mpr ⟨rfl,
      fun x hx => beq_iff_eq.mp (List.all_eq_true.mp List.all_takeWhile x hx)⟩
  have htake : cs.takeWhile (· == c) = cs.take (runLength c cs) :=
    List.prefix_iff_eq_take.mp (List.takeWhile_prefix _)
  rw [← hrun, htake, List.take_append_drop]

theorem head?_drop_runLength_ne (c : Char) (cs : List Char) :
    (cs.drop (runLength c cs)).head? ≠ some c := by
  have hdrop : cs.drop (runLength c cs) = cs.dropWhile (· == c) :=
    calc cs.drop (runLength c cs)
      _ = (cs.takeWhile (· == c) ++ cs.dropWhile (· == c)).drop (runLength c cs) := by
        rw [List.takeWhile_append_dropWhile]
      _ = cs.dropWhile (· == c) := List.drop_left' rfl
  intro hhead
  have hnot := List.head?_dropWhile_not (· == c) cs
  rw [← hdrop, hhead] at hnot
  exact absurd (beq_self_eq_true c) (Bool.eq_false_iff.mp hnot)

theorem runLength_replicate_append {c : Char} {k : Nat} {rest : List Char}
    (h : rest.head? ≠ some c) :
    runLength c (List.replicate k c ++ rest) = k := by
  rw [runLength, List.takeWhile_append_of_pos (by simp), List.length_append, List.length_replicate]
  cases rest with
  | nil => rfl
  | cons x xs => rw [List.takeWhile_cons_of_neg (by simpa using h)]; rfl

/-- There is one way to cut a text into a run of a character and what follows the run. -/
theorem eq_replicate_append_iff {c : Char} {n : Nat} {cs rest : List Char} :
    cs = List.replicate n c ++ rest ∧ rest.head? ≠ some c ↔
      runLength c cs = n ∧ cs.drop n = rest := by
  constructor
  · rintro ⟨rfl, hrest⟩
    exact ⟨runLength_replicate_append hrest, List.drop_left' List.length_replicate⟩
  · rintro ⟨rfl, rfl⟩
    exact ⟨(replicate_runLength_append_drop c cs).symm, head?_drop_runLength_ne c cs⟩

/-! ### What holds between two lines -/

/-- The end of the text has cut nothing short. -/
def InlineState.IsQuiet (st : InlineState) : Prop :=
  st.partialCloser = [] ∧ st.labelClosedAtEnd = false

theorem InlineState.isQuiet_empty : IsQuiet .empty := ⟨rfl, rfl⟩

/-- On a line that another one follows, nothing is cut short. -/
theorem InlineState.IsQuiet.scan_of_not_final {line : InlineLine} (hline : line.final = false)
    {st : InlineState} (h : st.IsQuiet) (before ahead : List Char) :
    (InlineState.scan line st before ahead).IsQuiet := by
  fun_induction InlineState.scan line st before ahead with
  | case1 => exact h
  | case2 st before c ahead next ih =>
    rcases restStep_step line st before c ahead with ⟨hpartial, hlabel⟩ | ⟨hfinal, -⟩
    · exact ih ⟨hpartial.trans h.1, hlabel.trans h.2⟩
    · exact absurd (hline.symm.trans hfinal) Bool.false_ne_true

/-- A fence has its three characters, and closes behind block quote markers and white space. -/
structure OpenFence.IsSound (f : OpenFence) : Prop where
  three_le_length : 3 ≤ f.length
  leader_eq : ∀ c ∈ f.leader, c = '>' ∨ c = '\t' ∨ c = ' '

theorem isSound_of_openFence?_eq_some {line content : List Char} {quoteDepth : Nat} {f : OpenFence}
    (h : openFence? line content quoteDepth = some f) :
    f.IsSound ∧ f.hasBody = false ∧ f.partialClose = 0 := by
  unfold openFence? at h
  split at h
  · simp at h
  · split at h
    · simp at h
    · simp only at h
      split at h
      · simp at h
      · rename_i hlength
        split at h
        · simp at h
        · obtain rfl := Option.some.inj h
          refine ⟨⟨Nat.le_of_not_lt hlength, fun c hc => ?_⟩, rfl, rfl⟩
          obtain ⟨x, -, rfl⟩ := List.mem_map.mp hc
          by_cases hx : x = '>' ∨ x = '\t'
          · rcases hx with rfl | rfl <;> simp
          · rw [not_or] at hx
            simp [hx]

theorem OpenFence.IsSound.step {f g : OpenFence} (h : f.IsSound) {line : List Char} {final : Bool}
    (hstep : f.step line final = some g) : g.IsSound := by
  unfold OpenFence.step at hstep
  simp only at hstep
  split at hstep
  · simp at hstep
  · split at hstep <;>
    · obtain rfl := Option.some.inj hstep
      exact ⟨h.three_le_length, h.leader_eq⟩

namespace ScanState

/-- What holds of the state after any lines of a text. -/
structure IsReached (text : List Char) (st : ScanState) : Prop where
  inline : st.inline.IsReached text
  fence : ∀ f, st.fence = some f → f.IsSound ∧ st.inline = .empty

theorem isReached_empty (text : List Char) : IsReached text .empty :=
  ⟨InlineState.isReached_empty text, fun _ h => nomatch h⟩

variable {text line : List Char} {st : ScanState}

theorem IsReached.scanMarkup (h : st.IsReached text) (hline : line ⊆ text) (final : Bool) :
    (st.scanMarkup line final).IsReached text := by
  unfold ScanState.scanMarkup
  simp only
  split
  · exact isReached_empty text
  · split
    · exact isReached_empty text
    · split
      · rename_i f hfence
        refine ⟨InlineState.isReached_empty text, fun g hg => ?_⟩
        obtain rfl := Option.some.inj hg
        exact ⟨(isSound_of_openFence?_eq_some hfence).1, rfl⟩
      · split
        · exact isReached_empty text
        · refine ⟨InlineState.IsReached.scan ?_ ?_, fun _ hf => nomatch hf⟩
          · split
            · exact InlineState.isReached_empty text
            · exact h.inline
          · exact List.Subset.trans (containerLead_rest_suffix line).subset hline

theorem IsReached.scanLine (h : st.IsReached text) (hline : line ⊆ text) (final : Bool) :
    (st.scanLine line final).IsReached text := by
  unfold ScanState.scanLine
  split
  · rename_i f hfence
    obtain ⟨hf, hinline⟩ := h.fence f hfence
    exact ⟨h.inline, fun g hg => ⟨hf.step hg, hinline⟩⟩
  · exact h.scanMarkup hline final

theorem IsReached.passLines {lines : List (List Char)} (h : st.IsReached text)
    (hlines : ∀ line ∈ lines, line ⊆ text) : (st.passLines lines).IsReached text := by
  refine List.foldlRecOn lines _ h fun s hs line hline => ?_
  exact hs.scanLine (List.Subset.trans (stripReturn_subset line) (hlines line hline)) false

theorem isReached_scanLines (text : List Char) :
    (ScanState.empty.scanLines (splitLines text)).IsReached text := by
  obtain ⟨lines, last, hlast⟩ := exists_isLastLine text
  rw [hlast.splitLines_eq, scanLines_concat]
  exact ((isReached_empty text).passLines fun line hline => hlast.subset_of_mem hline).scanLine
    (List.Subset.trans (stripReturn_subset last) hlast.subset) _

/-- Between two lines nothing is cut short. -/
theorem isQuiet_scanLine (h : st.inline.IsQuiet) (line : List Char) :
    (st.scanLine line false).inline.IsQuiet := by
  unfold ScanState.scanLine
  split
  · exact h
  · unfold ScanState.scanMarkup
    simp only
    split
    · exact InlineState.isQuiet_empty
    · split
      · exact InlineState.isQuiet_empty
      · split
        · exact InlineState.isQuiet_empty
        · split
          · exact InlineState.isQuiet_empty
          · refine InlineState.IsQuiet.scan_of_not_final rfl ?_ _ _
            split
            · exact InlineState.isQuiet_empty
            · exact h

theorem isQuiet_passLines (h : st.inline.IsQuiet) (lines : List (List Char)) :
    (st.passLines lines).inline.IsQuiet := by
  induction lines generalizing st with
  | nil => exact h
  | cons line lines ih => exact ih (isQuiet_scanLine h (stripReturn line).1)

end ScanState

end LiveMarkdown
