import LiveMarkdown.Proofs.Completion.Closers

/-!
# Openers and the runs they form

Openers that are put one behind another are read in runs. A run first closes what it can and then
opens markers with what is left of it. Counting the characters of the openers of a stack shows what
that can do: a run adds at most its own length, and exactly that only if it closes nothing and
counts as a run. The markers that it opens then are fixed by its length, so only some neighbouring
markers are read back as they were.

## Main definitions

* `openersOf`, `openerLength`: the openers of constructs, and the number of their characters.
* `topRun`: the markers of a character on top of a stack.
* `afterRun`: the stack behind a run of openers.

## Main results

* `closeRun_eq_self_iff`: when a run closes nothing.
* `openedBy_eq_reverse_iff`: when a run opens the markers that it is made of.
* `openerLength_afterRun`: what a run does to the number of characters.
* `afterRun_eq_of_length`: a run that loses no characters has opened the markers that it is made of.
-/

namespace LiveMarkdown

variable {c : Char} {stack below : List OpenConstruct} {marker single double : Marker}

/-- The openers of constructs, one behind another. -/
def openersOf (constructs : List OpenConstruct) : List Char :=
  constructs.flatMap OpenConstruct.opener

@[simp] theorem openersOf_nil : openersOf [] = [] := rfl

@[simp] theorem openersOf_cons (x : OpenConstruct) (constructs : List OpenConstruct) :
    openersOf (x :: constructs) = x.opener ++ openersOf constructs := rfl

/-- The number of characters of the openers of constructs. -/
def openerLength (constructs : List OpenConstruct) : Nat := (openersOf constructs).length

@[simp] theorem openerLength_nil : openerLength [] = 0 := rfl

@[simp] theorem openerLength_cons (x : OpenConstruct) (constructs : List OpenConstruct) :
    openerLength (x :: constructs) = x.opener.length + openerLength constructs := by
  rw [openerLength, openersOf_cons, List.length_append, openerLength]

@[simp] theorem openerLength_append (xs ys : List OpenConstruct) :
    openerLength (xs ++ ys) = openerLength xs + openerLength ys := by
  induction xs with
  | nil => simp
  | cons x xs ih => rw [List.cons_append, openerLength_cons, openerLength_cons, ih, Nat.add_assoc]

@[simp] theorem openerLength_reverse (xs : List OpenConstruct) :
    openerLength xs.reverse = openerLength xs := by
  induction xs with
  | nil => rfl
  | cons x xs ih => simp [ih, Nat.add_comm]

@[simp] theorem openerLength_replicate (n : Nat) (x : OpenConstruct) :
    openerLength (List.replicate n x) = n * x.opener.length := by
  induction n with
  | zero => simp
  | succ n ih => rw [List.replicate_succ, openerLength_cons, ih, Nat.succ_mul, Nat.add_comm]

@[simp] theorem length_opener_delimiter (m : Marker) :
    (OpenConstruct.delimiter m).opener.length = m.length :=
  m.text_length

theorem OpenConstruct.length_opener_pos_of_not_literal {x : OpenConstruct}
    (h : x.isLiteral = false) :
    0 < x.opener.length := by
  cases x with
  | delimiter m => rw [length_opener_delimiter]; exact m.length_pos
  | linkLabel image footnote => cases image <;> exact Nat.succ_pos _
  | _ => cases h

theorem openerLength_le_of_suffix (h : below <:+ stack) :
    openerLength below ≤ openerLength stack := by
  obtain ⟨front, rfl⟩ := h
  rw [openerLength_append]
  omega

/-- Two lower parts of a stack whose openers are equally long are the same, where every opener has
characters. -/
theorem eq_of_suffix_of_openerLength_eq {xs ys : List OpenConstruct} (hxs : xs <:+ stack)
    (hys : ys <:+ stack) (hlength : openerLength xs = openerLength ys)
    (hpos : ∀ x ∈ stack, 0 < x.opener.length) : xs = ys := by
  -- Of two lower parts the longer one has the shorter one at its end.
  have key : ∀ {xs ys : List OpenConstruct}, ys <:+ stack → xs <:+ ys →
      openerLength xs = openerLength ys → xs = ys := by
    rintro xs ys hys ⟨front, rfl⟩ hlength
    cases front with
    | nil => rfl
    | cons x front =>
      have hx := hpos x (hys.subset (by simp))
      simp only [List.cons_append, openerLength_cons, openerLength_append] at hlength
      omega
  rcases Nat.le_total xs.length ys.length with hle | hle
  · exact key hys (List.suffix_of_suffix_length_le hxs hys hle) hlength
  · exact (key hxs (List.suffix_of_suffix_length_le hys hxs hle) hlength.symm).symm

/-! ### Closing -/

theorem openerLength_of_findOpener? (h : findOpener? c stack = some (marker, below)) :
    openerLength below + marker.length ≤ openerLength stack := by
  fun_induction findOpener? c stack with
  | case1 => cases h
  | case2 => cases h
  | case3 marker' below' _ =>
    obtain ⟨rfl, rfl⟩ := Prod.mk.inj (Option.some.inj h)
    simp [Nat.add_comm]
  | case4 marker' below' _ ih =>
    have := ih h
    rw [openerLength_cons]
    omega
  | case5 x below' _ _ ih =>
    have := ih h
    rw [openerLength_cons]
    omega

/-- A run in front of more text closes nothing, or what it closes costs the stack and the run. -/
theorem closeRun_cases (c : Char) (stack : List OpenConstruct) (n : Nat) :
    closeRun c false stack n = ⟨stack, n, 0⟩ ∨
      openerLength (closeRun c false stack n).stack + (closeRun c false stack n).remaining + 2 ≤
        openerLength stack + n := by
  fun_induction closeRun c false stack n with
  | case1 => exact Or.inl rfl
  | case2 => exact Or.inl rfl
  | case3 stack n _ marker below hopener hle ih =>
    have hlength := openerLength_of_findOpener? hopener
    have hpos := marker.length_pos
    right
    rcases ih with heq | hcost
    · rw [heq]
      simp only
      omega
    · omega
  | case4 _ _ _ _ _ _ _ hatEnd => exact absurd hatEnd Bool.false_ne_true
  | case5 => exact Or.inl rfl

/-- A run in front of more text closes nothing exactly if the innermost marker of its character is
longer. -/
theorem closeRun_eq_self_iff {n : Nat} (hn : 0 < n) :
    closeRun c false stack n = ⟨stack, n, 0⟩ ↔ ∀ p ∈ findOpener? c stack, n < p.1.length := by
  rw [closeRun, if_neg (Nat.ne_of_gt hn)]
  cases hopener : findOpener? c stack with
  | none => simp
  | some p =>
    obtain ⟨marker, below⟩ := p
    by_cases hle : marker.length ≤ n
    · have hlength := openerLength_of_findOpener? hopener
      have hpos := marker.length_pos
      have hne : closeRun c false below (n - marker.length) ≠ ⟨stack, n, 0⟩ := by
        intro heq
        have hsuffix := closeRun_suffix c false below (n - marker.length)
        rw [heq] at hsuffix
        have hlower : openerLength stack ≤ openerLength below := openerLength_le_of_suffix hsuffix
        omega
      simp [hle, hne]
    · simp only [hle, if_false, Bool.false_eq_true, Option.mem_def, Option.some.injEq, forall_eq',
        true_iff]
      omega

/-! ### Opening -/

/-- The three sorts of delimiter characters, with the lengths of their markers. -/
theorem markersOf?_cases (h : markersOf? c = some (single, double)) :
    ((c = '*' ∨ c = '_') ∧ single.length = 1 ∧ double.length = 2) ∨
      (c = '~' ∧ single.length = 1 ∧ double.length = 2) ∨
      ((c = '+' ∨ c = '=') ∧ single.length = 2 ∧ double.length = 2) := by
  unfold markersOf? at h
  split at h
  case h_6 => cases h
  all_goals
    obtain ⟨rfl, rfl⟩ := Prod.mk.inj (Option.some.inj h)
    decide

theorem openedBy_of_star (hc : c = '*' ∨ c = '_') (single double : Marker) (n : Nat) :
    openedBy c single double n =
      List.replicate (n / 2) (.delimiter double) ++ if n % 2 = 1 then [.delimiter single] else [] :=
  if_pos (by simpa using hc)

theorem openedBy_of_not_star (hc : ¬(c = '*' ∨ c = '_')) (single double : Marker) (n : Nat) :
    openedBy c single double n = [.delimiter (if n = 1 then single else double)] :=
  if_neg (by simpa using hc)

/-- A run that counts opens markers with as many characters. -/
theorem openerLength_openedBy (hmarkers : markersOf? c = some (single, double)) {n : Nat}
    (hn : 0 < n) :
    openerLength (openedBy c single double n) ≤ n + 1 ∧
      (countsAsRun c n = true → openerLength (openedBy c single double n) = n) := by
  rcases markersOf?_cases hmarkers with ⟨hc, hsingle, hdouble⟩ | ⟨rfl, hsingle, hdouble⟩ |
      ⟨hc, hsingle, hdouble⟩
  · rw [openedBy_of_star hc, openerLength_append, openerLength_replicate, length_opener_delimiter,
      hdouble]
    split
    · simp only [openerLength_cons, openerLength_nil, length_opener_delimiter, hsingle]
      omega
    · simp only [openerLength_nil]
      omega
  · rw [openedBy_of_not_star (by decide), openerLength_cons, openerLength_nil,
      length_opener_delimiter]
    refine ⟨by split <;> omega, fun hcounts => ?_⟩
    have hle : n ≤ 2 := by simpa [countsAsRun] using hcounts
    split <;> omega
  · rw [openedBy_of_not_star (by rcases hc with rfl | rfl <;> decide), openerLength_cons,
      openerLength_nil, length_opener_delimiter]
    refine ⟨by split <;> omega, fun hcounts => ?_⟩
    have htwo : n = 2 := by rcases hc with rfl | rfl <;> simpa [countsAsRun] using hcounts
    split <;> omega

/-- The markers of a character on top of a stack. -/
def topRun (c : Char) : List OpenConstruct → List OpenConstruct
  | .delimiter marker :: below =>
    if marker.char = c then .delimiter marker :: topRun c below else []
  | _ => []

theorem topRun_append_belowRun (c : Char) (stack : List OpenConstruct) :
    topRun c stack ++ belowRun c stack = stack := by
  fun_induction belowRun c stack with
  | case1 marker below hc ih => rw [topRun, if_pos hc, List.cons_append, ih]
  | case2 marker below hc => rw [topRun, if_neg hc, List.nil_append]
  | case3 stack hstack =>
    have hnil : topRun c stack = [] := by
      unfold topRun
      split
      · exact absurd rfl (hstack _ _)
      · rfl
    rw [hnil, List.nil_append]

theorem openerLength_topRun (c : Char) (stack : List OpenConstruct) :
    openerLength (topRun c stack) = closerRun c stack := by
  fun_induction topRun c stack with
  | case1 marker below hc ih =>
    rw [openerLength_cons, ih, length_opener_delimiter, closerRun, if_pos hc]
  | case2 marker below hc => rw [closerRun, if_neg hc, openerLength_nil]
  | case3 stack hstack => rw [closerRun_of_ne_delimiter c hstack, openerLength_nil]

theorem topRun_cons_self (marker : Marker) (below : List OpenConstruct) :
    topRun marker.char (.delimiter marker :: below) =
      .delimiter marker :: topRun marker.char below := by
  rw [topRun, if_pos rfl]

theorem closerRun_cons_self_pos (marker : Marker) (below : List OpenConstruct) :
    0 < closerRun marker.char (.delimiter marker :: below) := by
  have := marker.length_pos
  rw [closerRun_cons_self]
  omega

theorem openerLength_eq_run_add (c : Char) (stack : List OpenConstruct) :
    openerLength stack = closerRun c stack + openerLength (belowRun c stack) := by
  have h := congrArg openerLength (topRun_append_belowRun c stack)
  rw [openerLength_append, openerLength_topRun] at h
  exact h.symm

theorem exists_of_mem_topRun {x : OpenConstruct} (h : x ∈ topRun c stack) :
    ∃ marker : Marker, marker.char = c ∧ x = .delimiter marker := by
  fun_induction topRun c stack with
  | case1 marker below hc ih =>
    rcases List.mem_cons.mp h with rfl | h
    · exact ⟨marker, hc, rfl⟩
    · exact ih h
  | case2 => cases h
  | case3 => cases h

/-- Another character has no run on top of a stack that markers of one character have been put
on. -/
theorem closerRun_reverse_append {run : List OpenConstruct} (hne : run ≠ [])
    (hrun : ∀ x ∈ run, ∃ marker : Marker, marker.char = c ∧ x = .delimiter marker) {d : Char}
    (hd : d ≠ c) (stack : List OpenConstruct) : closerRun d (run.reverse ++ stack) = 0 := by
  obtain ⟨y, ys, hys⟩ := List.exists_cons_of_ne_nil (List.reverse_ne_nil_iff.mpr hne)
  obtain ⟨marker, rfl, rfl⟩ := hrun y (List.mem_reverse.mp (hys ▸ List.mem_cons_self))
  rw [hys, List.cons_append, closerRun, if_neg hd.symm]

/-- Behind another marker of its own character, a marker is only read back if it is a double one of
those that stack up. -/
def Marker.Stacks (marker : Marker) : Prop :=
  (marker.char = '*' ∨ marker.char = '_') ∧ marker.length = 2

instance (marker : Marker) : Decidable marker.Stacks :=
  inferInstanceAs (Decidable (_ ∧ _))

theorem Marker.eq_of_char_eq {a b : Marker} (hchar : a.char = b.char)
    (hlength : a.length = b.length) :
    a = b := by
  cases a <;> cases b <;> simp_all [Marker.char, Marker.length]

/-- The single and the double marker of a character are all that it has. -/
theorem Marker.eq_single_or_eq_double (hmarkers : markersOf? marker.char = some (single, double)) :
    marker = single ∨ marker = double := by
  cases marker <;> obtain ⟨rfl, rfl⟩ := Prod.mk.inj (Option.some.inj hmarkers) <;> decide

/-- Only the outermost of the markers that a run opens may be a single one. -/
theorem eq_double_of_mem_dropLast_openedBy (hc : c = '*' ∨ c = '_') {n : Nat} {x : OpenConstruct}
    (h : x ∈ (openedBy c single double n).dropLast) : x = .delimiter double := by
  rw [openedBy_of_star hc] at h
  split at h
  · rw [List.dropLast_concat] at h
    exact List.eq_of_mem_replicate h
  · rw [List.append_nil] at h
    exact List.eq_of_mem_replicate (List.dropLast_subset _ h)

/-- A run opens the markers that it is made of, in their order, exactly if all of them but the
outermost stack up. -/
theorem openedBy_eq_reverse_iff (hmarkers : markersOf? marker.char = some (single, double))
    {more : List OpenConstruct}
    (hmore : ∀ x ∈ more, ∃ other : Marker, other.char = marker.char ∧ x = .delimiter other) :
    (countsAsRun marker.char (marker.length + openerLength more) = true ∧
        openedBy marker.char single double (marker.length + openerLength more) =
          (.delimiter marker :: more).reverse) ↔
      ∀ other, .delimiter other ∈ more → other.Stacks := by
  have hchars := markersOf?_char hmarkers
  by_cases hc : marker.char = '*' ∨ marker.char = '_'
  · obtain ⟨hsingle, hdouble⟩ : single.length = 1 ∧ double.length = 2 := by
      rcases markersOf?_cases hmarkers with ⟨-, h⟩ | ⟨h, -⟩ | ⟨h, -⟩
      · exact h
      · simp [h] at hc
      · rcases h with h | h <;> simp [h] at hc
    constructor
    · rintro ⟨-, hopened⟩ other hother
      have hdrop :
          (openedBy marker.char single double (marker.length + openerLength more)).dropLast =
          more.reverse := by
        rw [hopened, List.reverse_cons, List.dropLast_concat]
      obtain rfl : other = double := OpenConstruct.delimiter.inj
        (eq_double_of_mem_dropLast_openedBy hc (hdrop ▸ List.mem_reverse.mpr hother))
      exact ⟨hchars.2 ▸ hc, hdouble⟩
    · intro hstacks
      obtain ⟨k, rfl⟩ : ∃ k, more = List.replicate k (.delimiter double) := by
        refine ⟨more.length, List.eq_replicate_iff.mpr ⟨rfl, fun x hx => ?_⟩⟩
        obtain ⟨other, hchar, rfl⟩ := hmore x hx
        rw [Marker.eq_of_char_eq (hchar.trans hchars.2.symm)
          ((hstacks other hx).2.trans hdouble.symm)]
      refine ⟨by rcases hc with hc | hc <;> rw [hc] <;> rfl, ?_⟩
      rw [openedBy_of_star hc, openerLength_replicate, length_opener_delimiter, hdouble,
        List.reverse_cons, List.reverse_replicate]
      rcases Marker.eq_single_or_eq_double hmarkers with rfl | rfl
      · rw [hsingle, if_pos (by omega), show (1 + k * 2) / 2 = k by omega]
      · rw [hdouble, if_neg (by omega), show (2 + k * 2) / 2 = k + 1 by omega, List.append_nil,
          List.replicate_succ']
  · constructor
    · rintro ⟨-, hopened⟩ other hother
      rw [openedBy_of_not_star hc] at hopened
      have hlength := congrArg List.length hopened
      have hpos := List.length_pos_of_mem hother
      simp only [List.length_nil, List.length_reverse, List.length_cons] at hlength
      omega
    · intro hstacks
      obtain rfl : more = [] := by
        refine List.eq_nil_iff_forall_not_mem.mpr fun x hx => ?_
        obtain ⟨other, hchar, rfl⟩ := hmore x hx
        exact hc (hchar ▸ (hstacks other hx).1)
      clear hmore hstacks
      cases marker <;> obtain ⟨rfl, rfl⟩ := Prod.mk.inj (Option.some.inj hmarkers) <;> first
        | exact absurd (by decide) hc
        | exact ⟨rfl, rfl⟩

/-! ### What a run of openers does to the stack -/

/-- The stack behind a run of openers. Only a run between other openers can close something. -/
def afterRun (c : Char) (single double : Marker) (between : Bool) (n : Nat)
    (stack : List OpenConstruct) :
    List OpenConstruct :=
  if countsAsRun c n then
    let closing := if between then closeRun c false stack n else ⟨stack, n, 0⟩
    (if 0 < closing.remaining then openedBy c single double closing.remaining else []) ++
      closing.stack
  else stack

/-- A run that counts and closes nothing opens markers with all of its characters. -/
theorem afterRun_of_free {between : Bool} {n : Nat} (hn : 0 < n) (hcounts : countsAsRun c n = true)
    (hfree : between = true → closeRun c false stack n = ⟨stack, n, 0⟩) :
    afterRun c single double between n stack = openedBy c single double n ++ stack := by
  have hclosing : (if between then closeRun c false stack n else ⟨stack, n, 0⟩) =
      ⟨stack, n, 0⟩ := by
    split
    · exact hfree ‹_›
    · rfl
  rw [afterRun, if_pos hcounts, hclosing]
  simp only [if_pos hn]

theorem isLiteral_of_mem_afterRun (hmarkers : markersOf? c = some (single, double))
    (hstack : ∀ x ∈ stack, x.isLiteral = false) (between : Bool) (n : Nat) :
    ∀ x ∈ afterRun c single double between n stack, x.isLiteral = false := by
  have hclosing :
      (if between then closeRun c false stack n else ⟨stack, n, 0⟩).stack <:+ stack := by
    split
    · exact closeRun_suffix c false stack n
    · exact List.suffix_refl stack
  intro x hx
  simp only [afterRun] at hx
  generalize (if between then closeRun c false stack n else ⟨stack, n, 0⟩) = closing at hx hclosing
  split at hx
  · rcases List.mem_append.mp hx with hx | hx
    · split at hx
      · obtain ⟨marker, -, rfl⟩ := exists_marker_of_mem_openedBy hmarkers hx
        rfl
      · cases hx
    · exact hstack x (hclosing.subset hx)
  · exact hstack x hx

/-- A run adds fewer characters than it has, unless it counts and closes nothing. -/
theorem openerLength_afterRun (hmarkers : markersOf? c = some (single, double)) (between : Bool)
    {n : Nat} (hn : 0 < n) (stack : List OpenConstruct) :
    openerLength (afterRun c single double between n stack) < openerLength stack + n ∨
      (countsAsRun c n = true ∧ (between = true → closeRun c false stack n = ⟨stack, n, 0⟩)) := by
  by_cases hcounts : countsAsRun c n = true
  · by_cases hfree : between = true → closeRun c false stack n = ⟨stack, n, 0⟩
    · exact Or.inr ⟨hcounts, hfree⟩
    · rw [Classical.not_imp] at hfree
      obtain ⟨rfl, hcloses⟩ := hfree
      have hcost := (closeRun_cases c stack n).resolve_left hcloses
      left
      rw [afterRun, if_pos hcounts]
      simp only [if_true, openerLength_append]
      split
      · rename_i hpos
        have hopened := (openerLength_openedBy hmarkers hpos).1
        omega
      · rw [openerLength_nil]
        omega
  · left
    rw [afterRun, if_neg hcounts]
    omega

/-- If no character is lost, neither by a run nor by the openers `rest` behind it, the run has
closed nothing and opened the markers that it is made of. -/
theorem afterRun_eq_of_length (hmarkers : markersOf? c = some (single, double)) (between : Bool)
    {run rest : List OpenConstruct} {n : Nat} (hn : 0 < n) (hrun : openerLength run = n)
    (hpos : ∀ x ∈ rest.reverse ++ (run.reverse ++ stack), 0 < x.opener.length)
    (hle : openerLength (rest.reverse ++ (run.reverse ++ stack)) ≤
      openerLength (afterRun c single double between n stack) + openerLength rest)
    (hkeeps : openerLength (rest.reverse ++ (run.reverse ++ stack)) =
        openerLength (afterRun c single double between n stack) + openerLength rest →
      afterRun c single double between n stack <:+ rest.reverse ++ (run.reverse ++ stack)) :
    countsAsRun c n = true ∧ (between = true → closeRun c false stack n = ⟨stack, n, 0⟩) ∧
      openedBy c single double n = run.reverse := by
  simp only [openerLength_append, openerLength_reverse, hrun] at hle hkeeps
  obtain ⟨hcounts, hfree⟩ :=
    (openerLength_afterRun hmarkers between hn stack).resolve_left fun hless => by
    omega
  have hopened := (openerLength_openedBy hmarkers hn).2 hcounts
  rw [afterRun_of_free hn hcounts hfree, openerLength_append, hopened] at hkeeps
  refine ⟨hcounts, hfree, (List.append_left_inj stack).mp ?_⟩
  refine eq_of_suffix_of_openerLength_eq (hkeeps (by omega)) (List.suffix_append _ _) ?_ hpos
  rw [openerLength_append, openerLength_append, hopened, openerLength_reverse, hrun]

end LiveMarkdown
