import LiveMarkdown.Proofs.Completion.Fences

/-!
# Closing lines

The line that closes a fence is written with the containers of the line that has opened it: its
block quote markers stay, and its list markers become spaces. When the line is read back, only block
quote markers are looked for, and each of them may have no more than a few spaces in front. A list
marker inside which a block quote stands can leave more than that. Such a fence never closes: the
closing line becomes a part of its body.

## Main definitions

* `OpenFence.OpenedBy`: the line that has opened a fence.
* `OpenFence.QuotesInReach`: every block quote marker of the closing line is read back.

## Main results

* `exists_dropQuoteMarkers_append`: what is left of the leader of a closing line when it is read
  back.
* `OpenFence.OpenedBy.step_closingLine`: when a fence takes its closing line for one.
* `scanText_append_closer`: the closer of a fence closes it, or changes nothing.
-/

namespace LiveMarkdown

variable {f g : OpenFence} {line : List Char}

/-! ### The markers of the opening line -/

theorem exists_eq_replicate_append_dropSpaces (n : Nat) (cs : List Char) :
    ∃ k ≤ n, cs = List.replicate k ' ' ++ dropSpaces n cs := by
  fun_induction dropSpaces n cs with
  | case1 n cs ih =>
    obtain ⟨k, hk, hcs⟩ := ih
    exact ⟨k + 1, Nat.succ_le_succ hk, by rw [List.replicate_succ, List.cons_append, ← hcs]⟩
  | case2 n cs hcs => exact ⟨0, Nat.zero_le n, rfl⟩

/-- An ordinal is digits and one character behind them. -/
theorem exists_append_of_afterOrdinal? {cs rest : List Char} (h : afterOrdinal? cs = some rest) :
    ∃ x, (x = '.' ∨ x = ')') ∧ cs = leadingDigits cs ++ [x] ++ rest := by
  have hsplit := List.prefix_iff_eq_append.mp (leadingDigits_isInit cs)
  rw [afterOrdinal?_eq] at h
  split at h
  · cases h
  · split at h
    · rename_i r hr
      cases h
      exact ⟨'.', Or.inl rfl, by rw [List.append_assoc, List.singleton_append, ← hr, hsplit]⟩
    · rename_i r hr
      cases h
      exact ⟨')', Or.inr rfl, by rw [List.append_assoc, List.singleton_append, ← hr, hsplit]⟩
    · cases h

/-- Neither a block quote marker nor a tab is a part of a list marker. -/
theorem exists_append_of_afterListMarker? {cs rest : List Char}
    (h : afterListMarker? cs = some rest) :
    ∃ marker, cs = marker ++ rest ∧ '>' ∉ marker ∧ '\t' ∉ marker := by
  cases cs with
  | nil => exact absurd h (by simp [afterListMarker?, afterOrdinal?])
  | cons c cs =>
    rw [afterListMarker?_cons, Option.filter_eq_some_iff] at h
    by_cases hc : c = '-' ∨ c = '+' ∨ c = '*'
    · rw [if_pos hc, Option.some.injEq] at h
      refine ⟨[c], by rw [h.1, List.singleton_append], ?_, ?_⟩ <;>
      · rcases hc with rfl | rfl | rfl <;> decide
    · rw [if_neg hc] at h
      obtain ⟨x, hx, hsplit⟩ := exists_append_of_afterOrdinal? h.1
      have hdigits : ∀ y : Char, y.isDigit = false → y ∉ leadingDigits (c :: cs) := by
        intro y hy hmem
        exact absurd ((List.mem_takeWhile_imp hmem).symm.trans hy) (by decide)
      refine ⟨leadingDigits (c :: cs) ++ [x], hsplit, ?_, ?_⟩ <;>
      · rcases hx with rfl | rfl <;> simp [hdigits]

/-- What is read from the start of a line holds a character `>` for each block quote, and no tab. -/
theorem ContainerLead.exists_append_rest (cs : List Char) (quoteDepth : Nat) (listItem : Bool) :
    ∃ lead, cs = lead ++ (read cs quoteDepth listItem).rest ∧
      quoteDepth + lead.count '>' = (read cs quoteDepth listItem).quoteDepth ∧ '\t' ∉ lead := by
  fun_induction read cs quoteDepth listItem with
  | case1 cs quoteDepth listItem rest hcs ih =>
    obtain ⟨lead, hlead, hcount, htab⟩ := ih
    obtain ⟨k, -, hk⟩ := exists_eq_replicate_append_dropSpaces 3 cs
    obtain ⟨j, -, hj⟩ := exists_eq_replicate_append_dropSpaces 1 rest
    refine ⟨List.replicate k ' ' ++ '>' :: (List.replicate j ' ' ++ lead), ?_, ?_, ?_⟩
    · rw [afterQuoteMarker] at hlead
      rw [List.append_assoc, List.cons_append, List.append_assoc, afterQuoteMarker, ← hlead,
        ← hj, ← hcs]
      exact hk
    · rw [← hcount]
      simp [List.count_append, List.count_replicate]
      omega
    · simp [htab]
  | case2 cs quoteDepth listItem hcs => exact ⟨[], rfl, rfl, List.not_mem_nil⟩
  | case3 cs quoteDepth listItem c r hquote hcs rest hmarker ih =>
    obtain ⟨lead, hlead, hcount, htab⟩ := ih
    obtain ⟨k, -, hk⟩ := exists_eq_replicate_append_dropSpaces 3 cs
    obtain ⟨j, -, hj⟩ := exists_eq_replicate_append_dropSpaces 4 rest
    obtain ⟨marker, hsplit, hnotQuote, hnotTab⟩ := exists_append_of_afterListMarker? hmarker
    refine ⟨List.replicate k ' ' ++ (marker ++ (List.replicate j ' ' ++ lead)), ?_, ?_, ?_⟩
    · rw [List.append_assoc, List.append_assoc, List.append_assoc, ← hlead, ← hj, ← hsplit, ← hcs]
      exact hk
    · rw [← hcount]
      simp [List.count_append, List.count_replicate, List.count_eq_zero_of_not_mem hnotQuote]
    · simp [htab, hnotTab]
  | case4 cs quoteDepth listItem c r hquote hcs hmarker => exact ⟨[], rfl, rfl, List.not_mem_nil⟩

theorem exists_append_lineContent (line : List Char) :
    ∃ lead, line = lead ++ lineContent line ∧ lead.count '>' = (containerLead line).quoteDepth ∧
      '\t' ∉ lead := by
  obtain ⟨lead, hlead, hcount, htab⟩ := ContainerLead.exists_append_rest line 0 false
  obtain ⟨k, -, hk⟩ := exists_eq_replicate_append_dropSpaces 3 (containerLead line).rest
  refine ⟨lead ++ List.replicate k ' ', ?_, ?_, ?_⟩
  · rw [List.append_assoc, lineContent, ← hk]
    exact hlead
  · rw [containerLead, ← hcount]
    simp [List.count_append, List.count_replicate]
  · simp [htab]

theorem mem_blankMarkers {lead : List Char} (htab : '\t' ∉ lead) :
    ∀ c ∈ blankMarkers lead, c = '>' ∨ c = ' ' := by
  intro c hc
  obtain ⟨x, hx, rfl⟩ := List.mem_map.mp hc
  by_cases hquote : x = '>'
  · simp [hquote]
  · have : x ≠ '\t' := fun heq => htab (heq ▸ hx)
    simp [hquote, this]

theorem count_blankMarkers (lead : List Char) : (blankMarkers lead).count '>' = lead.count '>' := by
  induction lead with
  | nil => rfl
  | cons c lead ih =>
    rw [blankMarkers, List.map_cons, List.count_cons, List.count_cons, ← blankMarkers, ih]
    by_cases hquote : c = '>'
    · simp [hquote]
    · by_cases htab : c = '\t' <;> simp [hquote, htab]

/-! ### Reading block quote markers back -/

theorem dropSpaces_replicate_append {n k : Nat} (hk : k ≤ n) {cs : List Char}
    (hcs : cs.head? ≠ some ' ') :
    dropSpaces n (List.replicate k ' ' ++ cs) = cs := by
  induction k generalizing n with
  | zero =>
    rw [List.replicate_zero, List.nil_append]
    fun_cases dropSpaces n cs with
    | case1 n cs => exact absurd rfl hcs
    | case2 => rfl
  | succ k ih =>
    cases n with
    | zero => exact absurd hk (Nat.not_succ_le_zero k)
    | succ n =>
      rw [List.replicate_succ, List.cons_append, dropSpaces]
      exact ih (Nat.le_of_succ_le_succ hk)

theorem dropSpaces_replicate_append_quote {k : Nat} (hk : k ≤ 3) (more rest : List Char) :
    dropSpaces 3 (List.replicate k ' ' ++ '>' :: more ++ rest) = '>' :: (more ++ rest) := by
  rw [List.append_assoc, List.cons_append]
  exact dropSpaces_replicate_append hk (by simp)

theorem dropSpaces_of_head?_ne {n : Nat} {cs : List Char} (hcs : cs.head? ≠ some ' ') :
    dropSpaces n cs = cs :=
  dropSpaces_replicate_append (Nat.zero_le n) hcs

theorem afterQuoteMarker_cons_space (cs : List Char) : afterQuoteMarker (' ' :: cs) = cs := by
  rw [afterQuoteMarker, dropSpaces]
  cases cs <;> rfl

theorem dropQuoteMarkers_of_quote {n : Nat} {cs rest : List Char}
    (h : dropSpaces 3 cs = '>' :: rest) :
    dropQuoteMarkers (n + 1) cs = dropQuoteMarkers n (afterQuoteMarker rest) := by
  simp only [dropQuoteMarkers, h]

theorem dropQuoteMarkers_of_ne {n : Nat} {cs : List Char} (h : (dropSpaces 3 cs).head? ≠ some '>') :
    dropQuoteMarkers n cs = cs := by
  fun_cases dropQuoteMarkers n cs with
  | case1 => rfl
  | case2 n cs rest hcs => exact absurd (by rw [hcs]; rfl) h
  | case3 => rfl

/-- A block quote marker behind five spaces. Four are read in front of a marker at most, three that
indent it and one that belongs to the marker before it. -/
def distantQuoteMarker : List Char :=
  List.replicate 5 ' ' ++ ['>']

/-- Every block quote marker of the closing line is read back. At the start of the line there is no
marker before it, so there the line is taken to have one space more. -/
def OpenFence.QuotesInReach (f : OpenFence) : Prop :=
  ¬distantQuoteMarker <:+: ' ' :: f.leader

instance (f : OpenFence) : Decidable f.QuotesInReach :=
  inferInstanceAs (Decidable (¬distantQuoteMarker <:+: ' ' :: f.leader))

theorem distantQuoteMarker_infix_cons_iff {c : Char} (hc : c ≠ ' ') (cs : List Char) :
    distantQuoteMarker <:+: c :: cs ↔ distantQuoteMarker <:+: cs := by
  rw [List.infix_cons_iff, or_iff_right]
  intro hprefix
  exact hc (List.cons_prefix_cons.mp hprefix).1.symm

/-- A few spaces in front of a marker do not make it distant. -/
theorem distantQuoteMarker_infix_replicate_append_iff {k : Nat} (hk : k ≤ 4) (cs : List Char) :
    distantQuoteMarker <:+: List.replicate k ' ' ++ '>' :: cs ↔ distantQuoteMarker <:+: cs := by
  rw [← distantQuoteMarker_infix_cons_iff (c := '>') (by decide) cs]
  induction k with
  | zero => rfl
  | succ k ih =>
    rw [List.replicate_succ, List.cons_append, List.infix_cons_iff, ih (Nat.le_of_succ_le hk),
      or_iff_right]
    intro hprefix
    have hlength : k < 4 := hk
    interval_cases k <;>
      simp [distantQuoteMarker, List.replicate_succ, List.cons_prefix_cons] at hprefix

/-- Reading the leader of a closing line back leaves a part of it, in front of what follows the
leader. There is a block quote marker left exactly if one of them is distant. -/
theorem exists_dropQuoteMarkers_append {lead rest : List Char}
    (hlead : ∀ c ∈ lead, c = '>' ∨ c = ' ') (hrest : rest.head? ≠ some ' ') :
    ∃ left, dropQuoteMarkers (lead.count '>') (lead ++ rest) = left ++ rest ∧ left <:+ lead ∧
      ('>' ∈ left ↔ distantQuoteMarker <:+: ' ' :: lead) := by
  generalize hn : lead.count '>' = n
  induction n generalizing lead with
  | zero =>
    have hquote : '>' ∉ lead := List.count_eq_zero.mp hn
    refine ⟨lead, rfl, List.suffix_refl _, iff_of_false hquote fun hinfix => ?_⟩
    have hmem : '>' ∈ ' ' :: lead := hinfix.subset (by simp [distantQuoteMarker])
    exact hquote (by simpa using hmem)
  | succ n ih =>
    have hmem : '>' ∈ lead := List.count_pos_iff.mp (by omega)
    obtain ⟨spaces, more, rfl, hspaces⟩ := List.eq_append_cons_of_mem hmem
    obtain ⟨k, rfl⟩ : ∃ k, spaces = List.replicate k ' ' := by
      refine ⟨spaces.length, List.eq_replicate_iff.mpr ⟨rfl, fun c hc => ?_⟩⟩
      rcases hlead c (List.mem_append_left _ hc) with rfl | rfl
      · exact absurd hc hspaces
      · rfl
    have hcount : more.count '>' = n := by
      simpa [List.count_append, List.count_replicate] using hn
    have hmore : ∀ c ∈ more, c = '>' ∨ c = ' ' :=
      fun c hc => hlead c (List.mem_append_right _ (List.mem_cons_of_mem _ hc))
    by_cases hk : k ≤ 3
    · have hfirst : distantQuoteMarker <:+: ' ' :: (List.replicate k ' ' ++ '>' :: more) ↔
          distantQuoteMarker <:+: more := by
        rw [← List.cons_append, ← List.replicate_succ]
        exact distantQuoteMarker_infix_replicate_append_iff (Nat.succ_le_succ hk) more
      rw [dropQuoteMarkers_of_quote (dropSpaces_replicate_append_quote hk more rest), hfirst]
      by_cases hspace : more.head? = some ' '
      · -- The space behind the marker belongs to the marker.
        obtain ⟨inner, rfl⟩ := List.head?_eq_some_iff.mp hspace
        obtain ⟨left, hleft, hsuffix, hiff⟩ := @ih inner
          (fun c hc => hmore c (List.mem_cons_of_mem _ hc)) (by simpa using hcount)
        rw [List.cons_append, afterQuoteMarker_cons_space]
        exact ⟨left, hleft, hsuffix.trans ⟨List.replicate k ' ' ++ ['>', ' '], by simp⟩, hiff⟩
      · have hhead : (more ++ rest).head? ≠ some ' ' := by
          cases more with
          | nil => exact hrest
          | cons c cs => exact hspace
        have hsame : distantQuoteMarker <:+: ' ' :: more ↔ distantQuoteMarker <:+: more := by
          cases more with
          | nil => decide
          | cons c cs =>
            obtain rfl : c = '>' := (hmore c List.mem_cons_self).resolve_right fun heq =>
              hspace (heq ▸ rfl)
            rw [distantQuoteMarker_infix_cons_iff (c := '>') (by decide)]
            exact distantQuoteMarker_infix_replicate_append_iff (k := 1) (by decide) cs
        obtain ⟨left, hleft, hsuffix, hiff⟩ := ih hmore hcount
        rw [afterQuoteMarker, dropSpaces_of_head?_ne hhead, ← hsame]
        exact ⟨left, hleft, hsuffix.trans ⟨List.replicate k ' ' ++ ['>'], by simp⟩, hiff⟩
    · -- The marker is distant, and nothing is read any more.
      obtain ⟨j, rfl⟩ := Nat.exists_eq_add_of_le' (Nat.lt_of_not_le hk)
      refine ⟨_, dropQuoteMarkers_of_ne ?_, List.suffix_refl _, iff_of_true (by simp) ?_⟩
      · simp [List.replicate_succ, dropSpaces]
      · refine ⟨List.replicate j ' ', more, ?_⟩
        rw [distantQuoteMarker, ← List.append_assoc, List.replicate_append_replicate,
          ← List.cons_append, ← List.replicate_succ, List.append_assoc, List.singleton_append]

section Leader

variable {lead content rest : List Char}

/-- A block quote marker that is read in front of a content which is none begins the leader. -/
theorem exists_eq_of_head?_dropSpaces
    (hcontent : content.head? ≠ some ' ' ∧ content.head? ≠ some '>')
    (h : (dropSpaces 3 (lead ++ content)).head? = some '>') :
    ∃ k ≤ 3, ∃ more, lead = List.replicate k ' ' ++ '>' :: more := by
  obtain ⟨k, hk, hsplit⟩ := exists_eq_replicate_append_dropSpaces 3 (lead ++ content)
  obtain ⟨inner, hdrop⟩ := List.head?_eq_some_iff.mp h
  rw [hdrop] at hsplit
  refine ⟨k, hk, ?_⟩
  rcases List.append_eq_append_iff.mp hsplit with ⟨front, hspaces, heq⟩ | ⟨front, heq, hinner⟩
  · cases front with
    | nil => exact absurd (by rw [heq]; rfl) hcontent.2
    | cons x xs =>
      have hx : x ∈ List.replicate k ' ' := hspaces ▸ List.mem_append_right lead List.mem_cons_self
      obtain rfl : x = ' ' := List.eq_of_mem_replicate hx
      exact absurd (by rw [heq]; rfl) hcontent.1
  · cases front with
    | nil => exact absurd (by rw [← List.nil_append content, ← hinner]; rfl) hcontent.2
    | cons x more =>
      obtain ⟨rfl, -⟩ := List.cons.inj hinner
      exact ⟨more, heq⟩

theorem blankMarkers_replicate_append (k : Nat) (more : List Char) :
    blankMarkers (List.replicate k ' ' ++ '>' :: more) =
      List.replicate k ' ' ++ '>' :: blankMarkers more := by
  simp [blankMarkers]

/-- Where nothing is taken off the opening line, the closing line cannot be longer. -/
theorem length_dropQuoteMarkers_le_of_eq {n : Nat} {cs : List Char}
    (hcs : cs.length ≤ (blankMarkers lead ++ rest).length)
    (hsame : dropQuoteMarkers n (lead ++ content) = lead ++ content) :
    (dropQuoteMarkers n cs).length + content.length ≤
      (dropQuoteMarkers n (lead ++ content)).length + rest.length := by
  have hbound := (dropQuoteMarkers_suffix n cs).length_le
  have hblank : (blankMarkers lead).length = lead.length := List.length_map _
  rw [List.length_append, hblank] at hcs
  rw [hsame, List.length_append]
  omega

/-- Reading the closing line back takes off at least as much as reading the opening line. -/
theorem length_dropQuoteMarkers_blankMarkers_le (n : Nat) (lead : List Char)
    (hcontent : content.head? ≠ some ' ' ∧ content.head? ≠ some '>')
    (hrest : rest.head? ≠ some ' ') :
    (dropQuoteMarkers n (blankMarkers lead ++ rest)).length + content.length ≤
      (dropQuoteMarkers n (lead ++ content)).length + rest.length := by
  induction n generalizing lead with
  | zero => exact length_dropQuoteMarkers_le_of_eq le_rfl rfl
  | succ n ih =>
    by_cases hquote : (dropSpaces 3 (lead ++ content)).head? = some '>'
    · obtain ⟨k, hk, more, rfl⟩ := exists_eq_of_head?_dropSpaces hcontent hquote
      rw [blankMarkers_replicate_append,
        dropQuoteMarkers_of_quote (dropSpaces_replicate_append_quote hk more content),
        dropQuoteMarkers_of_quote (dropSpaces_replicate_append_quote hk (blankMarkers more) rest)]
      cases more with
      | nil =>
        rw [blankMarkers, List.map_nil, List.nil_append, List.nil_append, afterQuoteMarker,
          afterQuoteMarker, dropSpaces_of_head?_ne hrest, dropSpaces_of_head?_ne hcontent.1]
        exact ih []
      | cons c more =>
        by_cases hspace : c = ' '
        · subst hspace
          rw [List.cons_append, afterQuoteMarker_cons_space]
          exact (congrArg (fun cs => (dropQuoteMarkers n cs).length + content.length ≤ _)
            (afterQuoteMarker_cons_space (blankMarkers more ++ rest))).mpr (ih more)
        · have hsame : afterQuoteMarker (c :: more ++ content) = c :: more ++ content :=
            dropSpaces_of_head?_ne fun heq => hspace (Option.some.inj heq)
          rw [hsame]
          by_cases hquoteMore : c = '>'
          · subst hquoteMore
            exact ih ('>' :: more)
          · -- A list marker: the closing line may go on where the opening line does not.
            refine length_dropQuoteMarkers_le_of_eq (dropSpaces_length_le 1 _)
              (dropQuoteMarkers_of_ne ?_)
            rw [List.cons_append, dropSpaces_of_head?_ne (by simpa using hspace)]
            exact fun heq => hquoteMore (Option.some.inj heq)
    · exact length_dropQuoteMarkers_le_of_eq le_rfl (dropQuoteMarkers_of_ne hquote)

end Leader

/-! ### The closing line of a fence -/

/-- The line that has opened a fence, whatever has followed it. -/
def OpenFence.OpenedBy (f : OpenFence) (line : List Char) : Prop :=
  openFence? line (lineContent line) (containerLead line).quoteDepth =
    some { f with hasBody := false, partialClose := 0 }

theorem openFence?_eq_some {content : List Char} {quoteDepth : Nat}
    (h : openFence? line content quoteDepth = some f) :
    content.head? = some f.mark.char ∧ f.length = runLength f.mark.char content ∧
      f.quoteDepth = quoteDepth ∧
      f.indent = (dropQuoteMarkers quoteDepth line).length - content.length ∧
      f.leader = blankMarkers (line.take (line.length - content.length)) := by
  unfold openFence? at h
  split at h
  · exact absurd h (by simp)
  · rename_i c cs
    split at h
    · exact absurd h (by simp)
    · rename_i mark hmark
      simp only at h
      split at h
      · exact absurd h (by simp)
      · split at h
        · exact absurd h (by simp)
        · obtain rfl := Option.some.inj h
          have hchar := FenceMark.char_of_ofChar? hmark
          exact ⟨congrArg some hchar.symm, by rw [hchar], rfl, rfl, rfl⟩

namespace OpenFence.OpenedBy

theorem isSound (h : f.OpenedBy line) : f.IsSound :=
  have hsound := (isSound_of_openFence?_eq_some h).1
  ⟨hsound.three_le_length, hsound.leader_eq⟩

theorem step (h : f.OpenedBy line) {body : List Char} {final : Bool}
    (hstep : f.step body final = some g) :
    g.OpenedBy line := by
  rcases OpenFence.eq_of_step_eq_some hstep with rfl | ⟨-, run, -, -, rfl, -, -⟩
  · exact h
  · exact h

/-- The containers of the opening line, and what the fence keeps of them. -/
theorem exists_lead (h : f.OpenedBy line) :
    ∃ lead, line = lead ++ lineContent line ∧ '\t' ∉ lead ∧ f.leader = blankMarkers lead ∧
      f.quoteDepth = lead.count '>' ∧
      f.indent = (dropQuoteMarkers f.quoteDepth line).length - (lineContent line).length := by
  obtain ⟨-, -, hdepth, hindent, hleader⟩ := openFence?_eq_some h
  obtain ⟨lead, hline, hcount, htab⟩ := exists_append_lineContent line
  have hsub : line.length - (lineContent line).length = lead.length := by
    have := congrArg List.length hline
    rw [List.length_append] at this
    omega
  rw [hsub] at hleader
  conv_rhs at hleader => rw [hline]
  rw [← hdepth] at hcount hindent
  exact ⟨lead, hline, htab, hleader.trans (congrArg blankMarkers List.take_left), hcount.symm,
    hindent⟩

theorem mark_ne (f : OpenFence) :
    isSpace f.mark.char = false ∧ f.mark.char ≠ ' ' ∧ f.mark.char ≠ '>' := by
  cases f.mark <;> decide

/-- What is left of the closing line when its block quote markers have been taken off. -/
theorem exists_dropQuoteMarkers_closingLine (h : f.OpenedBy line) :
    ∃ left, dropQuoteMarkers f.quoteDepth f.closingLine =
      left ++ List.replicate f.length f.mark.char ∧
      (∀ c ∈ left, c = '>' ∨ c = ' ') ∧ (f.QuotesInReach ↔ '>' ∉ left) ∧
      left.length ≤ f.indent := by
  obtain ⟨lead, hline, htab, hleader, hdepth, hindent⟩ := h.exists_lead
  have hcontent : (lineContent line).head? = some f.mark.char := (openFence?_eq_some h).1
  have hrun : (List.replicate f.length f.mark.char).head? ≠ some ' ' := by
    intro hspace
    exact (mark_ne f).2.1 (List.eq_of_mem_replicate (List.mem_of_head? hspace)).symm
  obtain ⟨left, hleft, hsuffix, hquote⟩ :=
    exists_dropQuoteMarkers_append (mem_blankMarkers htab) hrun
  refine ⟨left, ?_, fun c hc => mem_blankMarkers htab c (hsuffix.subset hc), ?_, ?_⟩
  · rw [OpenFence.closingLine, hleader, hdepth, ← count_blankMarkers]
    exact hleft
  · rw [OpenFence.QuotesInReach, hleader, ← hquote]
  · have hspace : (lineContent line).head? ≠ some ' ' ∧ (lineContent line).head? ≠ some '>' :=
      ⟨by simp [hcontent, (mark_ne f).2.1], by simp [hcontent, (mark_ne f).2.2]⟩
    have hle := length_dropQuoteMarkers_blankMarkers_le f.quoteDepth lead hspace hrun
    rw [← hline, hdepth, ← count_blankMarkers, hleft, count_blankMarkers, ← hdepth,
      List.length_append] at hle
    omega

/-- A fence takes its closing line for one exactly if all block quote markers are read back.
Otherwise the line becomes a part of the body. -/
theorem step_closingLine (h : f.OpenedBy line) :
    f.step f.closingLine true =
      if f.QuotesInReach then none else some { f with hasBody := true } := by
  obtain ⟨left, hinner, hchars, hreach, hindent⟩ := h.exists_dropQuoteMarkers_closingLine
  obtain ⟨hmarkSpace, -, hmarkQuote⟩ := mark_ne f
  have hlength := h.isSound.three_le_length
  unfold OpenFence.step
  simp only [hinner]
  by_cases hquote : '>' ∈ left
  · -- The first marker that is left hides the run behind it.
    obtain ⟨spaces, more, rfl, hspaces⟩ := List.eq_append_cons_of_mem hquote
    have hall : ∀ c ∈ spaces, isSpace c = true := by
      intro c hc
      rcases hchars c (List.mem_append_left _ hc) with rfl | rfl
      · exact absurd hc hspaces
      · rfl
    have hbody : (spaces ++ '>' :: more ++ List.replicate f.length f.mark.char).dropWhile isSpace =
        '>' :: (more ++ List.replicate f.length f.mark.char) := by
      rw [List.append_assoc, List.dropWhile_append_of_pos hall, List.cons_append,
        List.dropWhile_cons_of_neg (by decide)]
    have hrun : runLength f.mark.char ('>' :: (more ++ List.replicate f.length f.mark.char)) =
        0 := by
      simp [runLength, hmarkQuote.symm]
    rw [if_neg fun hin => hreach.mp hin hquote, hbody, hrun]
    rfl
  · have hall : ∀ c ∈ left, isSpace c = true := by
      intro c hc
      rcases hchars c hc with rfl | rfl
      · exact absurd hc hquote
      · rfl
    have hbody : (left ++ List.replicate f.length f.mark.char).dropWhile isSpace =
        List.replicate f.length f.mark.char := by
      rw [List.dropWhile_append_of_pos hall, List.dropWhile_replicate, hmarkSpace]
      rfl
    have hrun : runLength f.mark.char (List.replicate f.length f.mark.char) = f.length := by
      simp [runLength]
    rw [if_pos (hreach.mpr hquote), hbody, hrun, if_pos]
    simp [isBlankLine]
    omega

end OpenFence.OpenedBy

/-! ### The closer of a fence in its text -/

namespace ScanState

variable {st : ScanState} {final : Bool} {lines : List (List Char)}

theorem openedBy_of_fence_scanLine (hst : ∀ g, st.fence = some g → ∃ line, g.OpenedBy line)
    (h : (st.scanLine line final).fence = some f) : ∃ line, f.OpenedBy line := by
  rw [scanLine] at h
  split at h
  · rename_i g hg
    obtain ⟨opening, hopening⟩ := hst g hg
    exact ⟨opening, hopening.step h⟩
  · obtain ⟨hbody, hpartial⟩ := of_fence_scanMarkup h
    refine ⟨line, (openFence?_of_fence_scanMarkup h).trans ?_⟩
    rw [← hbody, ← hpartial]

/-- A fence that is open has been opened by some line. -/
theorem openedBy_of_fence_scanLines (hst : ∀ g, st.fence = some g → ∃ line, g.OpenedBy line)
    (h : (st.scanLines lines).fence = some f) : ∃ line, f.OpenedBy line := by
  fun_induction scanLines st lines with
  | case1 => exact hst f h
  | case2 st line => exact openedBy_of_fence_scanLine hst h
  | case3 st line lines hlines ih => exact ih (fun g hg => openedBy_of_fence_scanLine hst hg) h

end ScanState

/-- The closer of a fence that a text leaves open closes it if it is the rest of a closing run, or
if all block quote markers of the closing line are read back. Otherwise it changes nothing: the same
fence is open, and the same closer is due. -/
theorem scanText_append_closer {text : List Char} {lineBreakFollows : Bool}
    (h : (scanText text lineBreakFollows).fence = some f)
    (hsuffix : (scanText text lineBreakFollows).suffix ≠ []) :
    scanText (text ++ (scanText text lineBreakFollows).suffix) lineBreakFollows =
      if 0 < f.partialClose ∨ f.QuotesInReach then ⟨[], none, [], false⟩
      else scanText text lineBreakFollows := by
  rw [fence_scanText] at h
  rw [scanText_of_fence_eq_some h] at hsuffix ⊢
  have hrow : separatorRow? (text ++ f.closer) lineBreakFollows = none :=
    separatorRow?_append_closer h hsuffix
  have hclosed : ScanState.empty.scanLines (splitLines (text ++ f.closer)) = .empty →
      scanText (text ++ f.closer) lineBreakFollows = ⟨[], none, [], false⟩ := by
    intro hscan
    rw [scanText_of_separatorRow?_eq_none (congrArg ScanState.fence hscan) hrow, hscan]
    rfl
  rcases scanLines_append_closer h hsuffix with ⟨hrun, hscan⟩ | ⟨hzero, hbody, hscan⟩
  · rw [if_pos (Or.inl hrun)]
    exact hclosed hscan
  · obtain ⟨line, hline⟩ := ScanState.openedBy_of_fence_scanLines
      (fun _ hg => absurd hg ScanState.fence_empty_ne_some) h
    rw [hline.step_closingLine] at hscan
    by_cases hreach : f.QuotesInReach
    · rw [if_pos hreach] at hscan
      rw [if_pos (Or.inr hreach)]
      exact hclosed hscan
    · have hsame : { f with hasBody := true } = f := by rw [← hbody]
      rw [if_neg hreach, hsame] at hscan
      rw [if_neg (not_or.mpr ⟨Nat.not_lt_of_le hzero.le, hreach⟩)]
      exact scanText_of_fence_eq_some (congrArg ScanState.fence hscan)

/-- A fence in a block quote in a list item in a block quote closes. -/
theorem scanText_append_closer_in_containers :
    (scanText "> - > ~~~~\n>   > x".toList false).fence =
        some ⟨.tilde, 4, 4, 2, ">   > ".toList, true, 0⟩ ∧
      (scanText "> - > ~~~~\n>   > x".toList false).suffix ≠ [] ∧
      scanText ("> - > ~~~~\n>   > x".toList ++
        (scanText "> - > ~~~~\n>   > x".toList false).suffix) false = ⟨[], none, [], false⟩ := by
  have hfence : (scanText "> - > ~~~~\n>   > x".toList false).fence =
      some ⟨.tilde, 4, 4, 2, ">   > ".toList, true, 0⟩ := by cbv
  have hsuffix : (scanText "> - > ~~~~\n>   > x".toList false).suffix ≠ [] := by
    have : (scanText "> - > ~~~~\n>   > x".toList false).suffix = "\n>   > ~~~~".toList := by cbv
    rw [this]
    decide
  refine ⟨hfence, hsuffix, ?_⟩
  rw [scanText_append_closer hfence hsuffix]
  exact if_pos (Or.inr (by decide))

/-- In an ordered list item with two digits, the closing line of a fence in a block quote has four
spaces in front of its marker. It closes nothing. -/
theorem scanText_append_closer_ne_of_distant_quote :
    (scanText "10. > ```\n    > x".toList false).fence =
        some ⟨.backtick, 3, 6, 1, "    > ".toList, true, 0⟩ ∧
      (scanText "10. > ```\n    > x".toList false).suffix = "\n    > ```".toList ∧
      scanText ("10. > ```\n    > x".toList ++ "\n    > ```".toList) false =
        ⟨[], some ⟨.backtick, 3, 6, 1, "    > ".toList, true, 0⟩, "\n    > ```".toList, true⟩ :=
  ⟨by cbv, by cbv, by cbv⟩

end LiveMarkdown
