import Mathlib
import LiveMarkdown.Proofs.Markup.Text

/-!
# How headings and code blocks were written

A markup tree does not tell an underlined heading from one with number signs, or an indented code
block from a fenced one, so this is read off the source of the node: behind its blank characters a
number sign makes an ATX heading and three marks of one kind make a fence. What is read is what was
written for every ATX heading and every fenced block, and for the other forms exactly as long as the
content does not start like them. A title that starts with a number sign, such as a hashtag, and
indented code that starts with a fence are taken for the other form, because blank characters are
dropped without limit and what follows the number signs is not looked at.

## Main definitions

* `StartsAtx`, `StartsFence`: how the source of an ATX heading and of a fenced code block starts.
* `LooksAtx`, `LooksFenced`: what is taken for them.
* `CodeBlock.TellsFence`: a code block tells which fence it has, or that it has none.
* `MarkupTree.Stands`: the trees that are turned into nodes, each with what its place holds.

## Main results

* `isSetextSource_eq_false_iff`, `fenceOf?_eq_some_iff`: what is taken for an ATX heading and for a
  fence.
* `MarkupTree.Stands.preorderList_nodesAs_subset`: what a tree gives is in the document.
* `documentNodes_tell_written_form`: headings and code blocks tell how they were written, wherever
  they stand, exactly if what is taken for an ATX heading or a fence is one.
-/

namespace LiveMarkdown

variable {slice : List Char}

/-! ### The forms -/

/-- An ATX heading starts with one to six number signs behind at most three spaces. White space or
the end of the text follows them. -/
def StartsAtx (slice : List Char) : Prop :=
  ∃ indent level rest, slice = List.replicate indent ' ' ++ (List.replicate level '#' ++ rest) ∧
    indent ≤ 3 ∧ 1 ≤ level ∧ level ≤ 6 ∧ rest.head?.all (· ∈ [' ', '\t', '\n', '\r'])

/-- A fenced code block starts with a run of at least three marks of one kind behind at most three
spaces. -/
def StartsFence (slice : List Char) (mark : FenceMark) (length : Nat) : Prop :=
  ∃ indent rest, slice = List.replicate indent ' ' ++ (List.replicate length mark.char ++ rest) ∧
    indent ≤ 3 ∧ 3 ≤ length ∧ rest.head? ≠ some mark.char

/-- What is taken for an ATX heading: the first character that is not blank is a number sign. -/
def LooksAtx (slice : List Char) : Prop :=
  ∃ blanks rest, slice = blanks ++ '#' :: rest ∧ ∀ c ∈ blanks, isBlankChar c = true

/-- What is taken for a fence: blank characters, and a run of at least three marks of one kind
behind them. -/
def LooksFenced (slice : List Char) (mark : FenceMark) (length : Nat) : Prop :=
  ∃ blanks rest, slice = blanks ++ (List.replicate length mark.char ++ rest) ∧
    (∀ c ∈ blanks, isBlankChar c = true) ∧ 3 ≤ length ∧ rest.head? ≠ some mark.char

/-- A code block tells which of the fences it has: a fenced block has the mark and the length of the
fence, and a block without a fence has neither, nor an info string. -/
structure CodeBlock.TellsFence (block : CodeBlock) (fence : FenceMark → Nat → Prop) : Prop where
  fenced_iff : block.fenced = true ↔ ∃ mark length, fence mark length
  of_fence : ∀ mark length, fence mark length →
    block.fenceMark = some mark ∧ block.fenceLength = length
  of_indented : block.fenced = false →
    block.fenceMark = none ∧ block.fenceLength = 0 ∧ block.info = ""

/-! ### How the forms are recognised -/

theorem head?_replicate_append {c : Char} {n : Nat} (h : 1 ≤ n) (rest : List Char) :
    (List.replicate n c ++ rest).head? = some c := by
  rw [List.head?_append, List.head?_replicate, if_neg (Nat.ne_of_gt h), Option.some_or]

theorem startsAtx_iff :
    StartsAtx slice ↔
      let content := slice.drop (runLength ' ' slice)
      let level := runLength '#' content
      runLength ' ' slice ≤ 3 ∧ 1 ≤ level ∧ level ≤ 6 ∧
        (content.drop level).head?.all (· ∈ [' ', '\t', '\n', '\r']) := by
  constructor
  · rintro ⟨indent, level, rest, hslice, hindent, hpos, hlevel, hrest⟩
    have hhead : (List.replicate level '#' ++ rest).head? ≠ some ' ' := by
      rw [head?_replicate_append hpos]
      decide
    have hend : rest.head? ≠ some '#' := fun h => absurd (h ▸ hrest) (by decide)
    obtain ⟨hrun, hcontent⟩ := eq_replicate_append_iff.mp ⟨hslice, hhead⟩
    obtain ⟨hsigns, hdrop⟩ := eq_replicate_append_iff.mp ⟨hcontent, hend⟩
    intro content signs
    have hcontentEq : content = slice.drop indent := congrArg slice.drop hrun
    have hsignsEq : signs = level := (congrArg (runLength '#') hcontentEq).trans hsigns
    rw [hsignsEq, hcontentEq, hdrop, hrun]
    exact ⟨hindent, hpos, hlevel, hrest⟩
  · rintro ⟨hindent, hpos, hlevel, hrest⟩
    refine ⟨_, _, _, ?_, hindent, hpos, hlevel, hrest⟩
    rw [replicate_runLength_append_drop, replicate_runLength_append_drop]

theorem startsFence_iff {mark : FenceMark} {length : Nat} :
    StartsFence slice mark length ↔
      runLength ' ' slice ≤ 3 ∧ 3 ≤ length ∧
      runLength mark.char (slice.drop (runLength ' ' slice)) = length := by
  constructor
  · rintro ⟨indent, rest, hslice, hindent, hlength, hrest⟩
    have hhead : (List.replicate length mark.char ++ rest).head? ≠ some ' ' := by
      rw [head?_replicate_append (by omega)]
      cases mark <;> decide
    obtain ⟨hrun, hcontent⟩ := eq_replicate_append_iff.mp ⟨hslice, hhead⟩
    rw [hrun]
    exact ⟨hindent, hlength, (eq_replicate_append_iff.mp ⟨hcontent, hrest⟩).1⟩
  · rintro ⟨hindent, hlength, rfl⟩
    refine ⟨_, (slice.drop (runLength ' ' slice)).drop _, ?_, hindent, hlength,
      head?_drop_runLength_ne _ _⟩
    rw [replicate_runLength_append_drop, replicate_runLength_append_drop]

instance : DecidablePred StartsAtx := fun _ => decidable_of_iff _ startsAtx_iff.symm

instance (mark : FenceMark) (length : Nat) : Decidable (StartsFence slice mark length) :=
  decidable_of_iff _ startsFence_iff.symm

/-- An ATX heading is taken for one. -/
theorem StartsAtx.looksAtx (h : StartsAtx slice) : LooksAtx slice := by
  obtain ⟨indent, level, rest, rfl, -, hpos, -⟩ := h
  obtain ⟨more, rfl⟩ := Nat.exists_eq_add_of_le' hpos
  exact ⟨_, _, rfl, fun c hc => List.eq_of_mem_replicate hc ▸ rfl⟩

/-- A fenced code block is taken for one, with its fence. -/
theorem StartsFence.looksFenced {mark : FenceMark} {length : Nat}
    (h : StartsFence slice mark length) :
    LooksFenced slice mark length := by
  obtain ⟨indent, rest, rfl, -, hlength, hrest⟩ := h
  exact ⟨_, rest, rfl, fun c hc => List.eq_of_mem_replicate hc ▸ rfl, hlength, hrest⟩

/-! ### What is read off the source -/

/-- There is one way to cut a text into blank characters and what follows them. -/
theorem trimLeft_append_eq_of_head? {blanks content : List Char}
    (hblanks : ∀ c ∈ blanks, isBlankChar c = true)
    (hcontent : ∀ c ∈ content.head?, isBlankChar c = false) :
    trimLeft (blanks ++ content) = content := by
  rw [trimLeft, List.dropWhile_append_of_pos hblanks]
  cases content with
  | nil => rfl
  | cons c cs => exact List.dropWhile_cons_of_neg (by simp [hcontent c rfl])

theorem exists_append_trimLeft (slice : List Char) :
    ∃ blanks, slice = blanks ++ trimLeft slice ∧ ∀ c ∈ blanks, isBlankChar c = true :=
  ⟨slice.takeWhile isBlankChar, (List.takeWhile_append_dropWhile).symm,
    List.all_eq_true.mp List.all_takeWhile⟩

/-- A heading counts as underlined unless it is taken for an ATX heading. -/
theorem isSetextSource_eq_false_iff (hslice : slice ≠ []) :
    isSetextSource slice = false ↔ LooksAtx slice := by
  have hhead : isSetextSource slice = false ↔ (trimLeft slice).head? = some '#' := by
    simp [isSetextSource, hslice]
  rw [hhead]
  constructor
  · intro hsign
    obtain ⟨blanks, hcut, hblanks⟩ := exists_append_trimLeft slice
    obtain ⟨rest, hrest⟩ := List.head?_eq_some_iff.mp hsign
    exact ⟨blanks, rest, hrest ▸ hcut, hblanks⟩
  · rintro ⟨blanks, rest, rfl, hblanks⟩
    rw [trimLeft_append_eq_of_head? hblanks (by rintro c ⟨⟩; rfl), List.head?_cons]

/-- A code block counts as fenced exactly if it is taken for one. -/
theorem fenceOf?_eq_some_iff {mark : FenceMark} {length : Nat} :
    fenceOf? slice = some (mark, length) ↔ LooksFenced slice mark length := by
  constructor
  · intro h
    obtain ⟨blanks, hcut, hblanks⟩ := exists_append_trimLeft slice
    unfold fenceOf? at h
    split at h
    · cases h
    · rename_i c cs hcontent
      split at h
      · cases h
      · rename_i found hfound
        obtain ⟨hlength, heq⟩ := Option.ite_none_right_eq_some.mp h
        obtain ⟨rfl, rfl⟩ := Prod.mk.inj (Option.some.inj heq)
        obtain rfl := FenceMark.char_of_ofChar? hfound
        refine ⟨blanks, (found.char :: cs).drop _, ?_, hblanks, hlength,
          head?_drop_runLength_ne _ _⟩
        rw [replicate_runLength_append_drop, ← hcontent]
        exact hcut
  · rintro ⟨blanks, rest, rfl, hblanks, hlength, hrest⟩
    obtain ⟨more, rfl⟩ := Nat.exists_eq_add_of_le' (Nat.le_trans (by decide : 1 ≤ 3) hlength)
    have hcontent : trimLeft (blanks ++ (List.replicate (more + 1) mark.char ++ rest)) =
        mark.char :: (List.replicate more mark.char ++ rest) := by
      refine trimLeft_append_eq_of_head? hblanks ?_
      rintro c ⟨⟩
      cases mark <;> rfl
    have hrun : runLength mark.char (mark.char :: (List.replicate more mark.char ++ rest)) =
        more + 1 :=
      runLength_replicate_append (k := more + 1) hrest
    unfold fenceOf?
    rw [hcontent]
    simp only [FenceMark.ofChar?_char, hrun, if_pos hlength]

/-- A code block tells what is taken for its fence. -/
theorem exists_codeNode_eq_tellsFence (slice : List Char) (lang info : Option String)
    (value : String) :
    ∃ block, codeNode slice lang info value = Node.ofLeaf (.codeBlock block) ∧
      block.TellsFence (LooksFenced slice) := by
  have hlooks : ∀ mark length, LooksFenced slice mark length ↔
      fenceOf? slice = some (mark, length) :=
    fun _ _ => fenceOf?_eq_some_iff.symm
  unfold codeNode
  cases hfence : fenceOf? slice with
  | none =>
    refine ⟨_, rfl, ?_, ?_, fun _ => ⟨rfl, rfl, rfl⟩⟩ <;> simp [hlooks, hfence]
  | some fence =>
    obtain ⟨mark, length⟩ := fence
    refine ⟨_, rfl, ?_, ?_, nofun⟩ <;> simp [hlooks, hfence]

/-- A block that tells one sort of fences tells a narrower sort exactly if its fence is of that
sort. -/
theorem CodeBlock.TellsFence.tellsFence_iff {block : CodeBlock}
    {wide narrow : FenceMark → Nat → Prop} (h : block.TellsFence wide)
    (hwide : ∀ mark length, narrow mark length → wide mark length) :
    block.TellsFence narrow ↔ ∀ mark length, wide mark length → narrow mark length := by
  constructor
  · intro hnarrow mark length hfence
    obtain ⟨mark', length', hfence'⟩ :=
      hnarrow.fenced_iff.mp (h.fenced_iff.mpr ⟨mark, length, hfence⟩)
    -- the block has one fence only
    obtain ⟨hmark, hlength⟩ := h.of_fence mark length hfence
    obtain ⟨hmark', hlength'⟩ := hnarrow.of_fence mark' length' hfence'
    obtain rfl : mark' = mark := Option.some.inj (hmark'.symm.trans hmark)
    obtain rfl : length' = length := hlength'.symm.trans hlength
    exact hfence'
  · intro hnarrow
    refine ⟨?_, fun mark length hfence => h.of_fence mark length (hwide mark length hfence),
      h.of_indented⟩
    rw [h.fenced_iff]
    exact ⟨fun ⟨mark, length, hfence⟩ => ⟨mark, length, hnarrow mark length hfence⟩,
      fun ⟨mark, length, hfence⟩ => ⟨mark, length, hwide mark length hfence⟩⟩

/-! ### Trees in their places -/

/-- What the children of a node are read as where the node is read as something of the given sort.
What stands among parts is read as a part, whatever it is. A part that stands elsewhere and a type
without a meaning give no nodes. -/
def MarkupBranch.childContent? (b : MarkupBranch) : MarkupContent → Option MarkupContent
  | .items => some .flow
  | .rows => some .cells
  | .cells => some .phrasing
  | .flow | .phrasing => if b.part?.isSome then none else b.content?

namespace MarkupTree

/-- The trees that are turned into nodes, with what each of them is read as. -/
inductive Stands (trees : List MarkupTree) : MarkupContent → MarkupTree → Prop
  | root {t : MarkupTree} (ht : t ∈ trees) : Stands trees .flow t
  | child {k content : MarkupContent} {span : Option Span} {b : MarkupBranch} {ts : List MarkupTree}
      {t : MarkupTree} (h : Stands trees k (branch span b ts))
      (hcontent : b.childContent? k = some content) (ht : t ∈ ts) : Stands trees content t

variable (s : Source) {b : MarkupBranch} {ts : List MarkupTree} {t : MarkupTree}
  {content : MarkupContent}

theorem toNodes_subset_toNodesList (inline : Bool) (ht : t ∈ ts) :
    toNodes s inline t ⊆ toNodesList s inline ts := by
  rw [toNodesList_eq_flatMap]
  exact fun n hn => List.mem_flatMap_of_mem ht hn

/-- What stands in a node with children is below the node that it gives. -/
theorem preorderList_nodesAs_subset_toNodes (inline : Bool) (span : Option Span)
    (hpart : b.part? = none) (hcontent : b.content? = some content) (ht : t ∈ ts) :
    Node.preorderList (t.nodesAs s content) ⊆
      Node.preorderList (toNodes s inline (branch span b ts)) := by
  have hflow : t.nodesAs s .flow ⊆ toNodesList s false ts := toNodes_subset_toNodesList s false ht
  have hphrasing : t.nodesAs s .phrasing ⊆ toNodesList s true ts :=
    toNodes_subset_toNodesList s true ht
  cases b with
  | paragraph | heading | emphasis | strong | delete | link | linkReference =>
    obtain rfl := Option.some.inj hcontent
    rw [toNodes]
    exact List.Subset.trans (Node.preorderList_subset hphrasing)
      (Node.preorderList_subset_of_branch_mem (List.mem_singleton_self _))
  | blockquote | footnoteDefinition =>
    obtain rfl := Option.some.inj hcontent
    rw [toNodes]
    exact List.Subset.trans (Node.preorderList_subset hflow)
      (Node.preorderList_subset_of_branch_mem (List.mem_singleton_self _))
  | list ordered start spread =>
    obtain rfl := Option.some.inj hcontent
    have hitem : ∀ attributes,
        Node.preorderList (t.nodesAs s .items) ⊆ Node.preorderList (itemNodes s attributes ts) := by
      intro attributes
      obtain ⟨c, hc⟩ : ∃ c, itemNode s attributes t = Node.ofContainer c (t.nodesAs s .items) := by
        unfold itemNode
        split <;> exact ⟨_, rfl⟩
      rw [itemNodes_eq_map]
      exact Node.preorderList_subset_of_branch_mem
        (hc ▸ List.mem_map_of_mem (f := itemNode s attributes) ht)
    rw [toNodes]
    exact List.Subset.trans (hitem _)
      (Node.preorderList_subset_of_branch_mem (List.mem_singleton_self _))
  | table alignments =>
    obtain rfl := Option.some.inj hcontent
    have hrow : ∀ columns,
        Node.preorderList (t.nodesAs s .rows) ⊆ Node.preorderList (rowNodes s columns true ts) := by
      intro columns
      obtain ⟨i, hi, rfl⟩ := List.getElem_of_mem ht
      rw [rowNodes_eq_mapIdx]
      exact List.Subset.trans (Node.preorderList_subset (List.subset_append_left _ _))
        (Node.preorderList_subset_of_branch_mem (List.mem_mapIdx.mpr ⟨i, hi, rfl⟩))
    rw [toNodes]
    exact List.Subset.trans (hrow _)
      (Node.preorderList_subset_of_branch_mem (List.mem_singleton_self _))
  | listItem | tableRow | tableCell => cases hpart
  | unknown => cases hcontent

/-- What stands in a node with children is among the nodes that it gives. -/
theorem preorderList_nodesAs_subset {k : MarkupContent} (span : Option Span)
    (hcontent : b.childContent? k = some content) (ht : t ∈ ts) :
    Node.preorderList (t.nodesAs s content) ⊆
      Node.preorderList ((branch span b ts).nodesAs s k) := by
  cases k with
  | flow | phrasing =>
    rw [MarkupBranch.childContent?, Option.ite_none_left_eq_some,
      Option.not_isSome_iff_eq_none] at hcontent
    exact preorderList_nodesAs_subset_toNodes s _ span hcontent.1 hcontent.2 ht
  | items =>
    obtain rfl := Option.some.inj hcontent
    have hnodes : (branch span b ts).nodesAs s .items = toNodesList s false ts := by
      rw [nodesAs, contentNodes]
    rw [hnodes]
    exact Node.preorderList_subset (toNodes_subset_toNodesList s false ht)
  | cells =>
    obtain rfl := Option.some.inj hcontent
    have hnodes : (branch span b ts).nodesAs s .cells = toNodesList s true ts := by
      rw [nodesAs, contentNodes]
    rw [hnodes]
    exact Node.preorderList_subset (toNodes_subset_toNodesList s true ht)
  | rows =>
    obtain rfl := Option.some.inj hcontent
    have hcell : Node.ofContainer .tableCell (t.nodesAs s .cells) ∈
        (branch span b ts).nodesAs s .rows := by
      rw [nodesAs, cellsOf, cellNodes_eq_map]
      exact List.mem_map_of_mem ht
    exact Node.preorderList_subset_of_branch_mem hcell

/-- What a tree gives where it stands is in the document. -/
theorem Stands.preorderList_nodesAs_subset {trees : List MarkupTree} {k : MarkupContent}
    (h : Stands trees k t) :
    Node.preorderList (t.nodesAs s k) ⊆ Node.preorderList (toNodesList s false trees) := by
  induction h with
  | root ht => exact Node.preorderList_subset (toNodes_subset_toNodesList s false ht)
  | child _ hcontent ht ih =>
    exact List.Subset.trans (MarkupTree.preorderList_nodesAs_subset s _ hcontent ht) ih

end MarkupTree

/-! ### Headings and code blocks -/

namespace MarkupTree

variable {s : Source} {k : MarkupContent} {span : Option Span}

/-- A heading that stands among blocks or inlines gives a heading, which counts as underlined unless
it is taken for an ATX heading. -/
theorem exists_nodesAs_heading (hk : k.part? = none) (hslice : s.slice span ≠ []) (depth : Nat)
    (ts : List MarkupTree) :
    ∃ setext, (branch span (.heading depth) ts).nodesAs s k =
        [Node.ofContainer (.heading depth setext) (toNodesList s true ts)] ∧
      (setext = false ↔ LooksAtx (s.slice span)) := by
  obtain ⟨inline, hinline⟩ := exists_nodesAs_eq_toNodes s hk
  rw [hinline, toNodes]
  exact ⟨_, rfl, isSetextSource_eq_false_iff hslice⟩

/-- Code that stands among blocks or inlines gives a code block, which tells what is taken for its
fence. -/
theorem exists_nodesAs_code (hk : k.part? = none) (lang info : Option String) (value : String) :
    ∃ block, (leaf span (.code lang info value)).nodesAs s k = [Node.ofLeaf (.codeBlock block)] ∧
      block.TellsFence (LooksFenced (s.slice span)) := by
  obtain ⟨inline, hinline⟩ := exists_nodesAs_eq_toNodes s hk
  obtain ⟨block, hblock, htells⟩ := exists_codeNode_eq_tellsFence (s.slice span) lang info value
  rw [hinline, toNodes, MarkupLeaf.toNodes, hblock]
  exact ⟨block, rfl, htells⟩

end MarkupTree

/-- Wherever a heading or code stands in markup, it gives a heading or a code block of the document.
The heading counts as underlined unless it is taken for an ATX heading, and the block tells what is
taken for its fence. So a heading tells whether it is an ATX heading exactly if it is one as soon as
it is taken for one, and a code block tells whether and how it is fenced exactly if what is taken
for a fence is one. -/
theorem documentNodes_tell_written_form (source : String) (trees : List MarkupTree)
    {k : MarkupContent} (hk : k.part? = none) (span : Option Span) :
    let s : Source := ⟨source.toList, MarkupTree.definitionsList trees⟩
    let slice := s.slice span
    let nodes := Node.preorderList (documentNodes source trees)
    (∀ depth ts,
      let heading := MarkupTree.branch span (.heading depth) ts
      MarkupTree.Stands trees k heading → slice ≠ [] →
        ∃ setext,
          let n := Node.ofContainer (.heading depth setext) (MarkupTree.toNodesList s true ts)
          heading.nodesAs s k = [n] ∧ n ∈ nodes ∧ (setext = false ↔ LooksAtx slice) ∧
            ((setext = false ↔ StartsAtx slice) ↔ (LooksAtx slice → StartsAtx slice))) ∧
      ∀ lang info value,
        let code := MarkupTree.leaf span (.code lang info value)
        MarkupTree.Stands trees k code →
          ∃ block,
            let n := Node.ofLeaf (.codeBlock block)
            code.nodesAs s k = [n] ∧ n ∈ nodes ∧ block.TellsFence (LooksFenced slice) ∧
              (block.TellsFence (StartsFence slice) ↔
                ∀ mark length, LooksFenced slice mark length → StartsFence slice mark length) := by
  intro s slice nodes
  have hmem : ∀ {t : MarkupTree} {n : Node}, MarkupTree.Stands trees k t → t.nodesAs s k = [n] →
      n ∈ nodes := by
    intro t n hstands hnodes
    exact hstands.preorderList_nodesAs_subset s
      (Node.mem_preorderList_of_mem (hnodes ▸ List.mem_singleton_self n))
  constructor
  · intro depth ts heading hstands hslice
    obtain ⟨setext, hnodes, hsetext⟩ := MarkupTree.exists_nodesAs_heading hk hslice depth ts
    refine ⟨setext, hnodes, hmem hstands hnodes, hsetext, ?_⟩
    rw [hsetext]
    exact ⟨Iff.mp, fun h => ⟨h, StartsAtx.looksAtx⟩⟩
  · intro lang info value code hstands
    obtain ⟨block, hnodes, htells⟩ := MarkupTree.exists_nodesAs_code hk lang info value
    exact ⟨block, hnodes, hmem hstands hnodes, htells,
      htells.tellsFence_iff fun _ _ => StartsFence.looksFenced⟩

/-- An ATX heading in a quote, and a fenced code block in a list behind it. -/
theorem documentNodes_tell_written_form_in_quote :
    let source := "> # a\n> - ~~~~ b\n>   c"
    let atx := MarkupTree.branch (some ⟨2, 5⟩) (.heading 1) [.leaf none (.text "a")]
    let fenced := MarkupTree.leaf (some ⟨10, 22⟩) (.code (some "b") none "c")
    let list := MarkupTree.branch none (.list false none false)
      [.branch none (.listItem none) [fenced]]
    let trees := [MarkupTree.branch none .blockquote [atx, list]]
    let s : Source := ⟨source.toList, []⟩
    let nodes := Node.preorderList (documentNodes source trees)
    MarkupTree.Stands trees .flow atx ∧ s.slice (some ⟨2, 5⟩) ≠ [] ∧
      StartsAtx (s.slice (some ⟨2, 5⟩)) ∧
      Node.ofContainer (.heading 1 false) [Node.text "a"] ∈ nodes ∧
      MarkupTree.Stands trees .flow fenced ∧ StartsFence (s.slice (some ⟨10, 22⟩)) .tilde 4 ∧
      ∃ block, fenced.nodesAs s .flow = [Node.ofLeaf (.codeBlock block)] ∧
        Node.ofLeaf (.codeBlock block) ∈ nodes ∧ block.fenceMark = some .tilde ∧
        block.fenceLength = 4 := by
  intro source atx fenced list trees s nodes
  have hquote : MarkupTree.Stands trees .flow (.branch none .blockquote [atx, list]) :=
    .root (List.mem_singleton_self _)
  have hatx : MarkupTree.Stands trees .flow atx := .child hquote rfl List.mem_cons_self
  have hlist : MarkupTree.Stands trees .flow list :=
    .child hquote rfl (List.mem_cons_of_mem _ (List.mem_singleton_self _))
  have hfenced : MarkupTree.Stands trees .flow fenced :=
    .child (.child hlist rfl (List.mem_singleton_self _)) rfl (List.mem_singleton_self _)
  have hstartsAtx : StartsAtx (s.slice (some ⟨2, 5⟩)) := by decide +kernel
  have hstartsFence : StartsFence (s.slice (some ⟨10, 22⟩)) .tilde 4 := by decide +kernel
  obtain ⟨setext, -, hheading, hsetext, -⟩ :=
    (documentNodes_tell_written_form source trees rfl (some ⟨2, 5⟩)).1 1 _ hatx (by decide +kernel)
  obtain rfl : setext = false := hsetext.mpr hstartsAtx.looksAtx
  obtain ⟨block, hnodes, hcode, hlooks, -⟩ :=
    (documentNodes_tell_written_form source trees rfl (some ⟨10, 22⟩)).2 _ _ _ hfenced
  obtain ⟨hmark, hlength⟩ := hlooks.of_fence _ _ hstartsFence.looksFenced
  exact ⟨hatx, by decide +kernel, hstartsAtx, hheading, hfenced, hstartsFence, block, hnodes, hcode,
    hmark, hlength⟩

/-- An underlined heading whose title starts with a number sign, but is no ATX heading, and indented
code that starts with three backticks. -/
theorem documentNodes_mistake_written_form :
    let source := "#a\n=\n\n    ```"
    let title : Option Span := some ⟨0, 4⟩
    let code : Option Span := some ⟨6, 13⟩
    let trees := [MarkupTree.branch title (.heading 1) [.leaf none (.text "#a")],
      .leaf code (.code none none "```")]
    let s : Source := ⟨source.toList, []⟩
    documentNodes source trees =
        [Node.ofContainer (.heading 1 false) [Node.text "#a"],
          Node.codeBlock "```\n" "" (some .backtick) 3] ∧
      s.slice title = "#a\n=".toList ∧ ¬StartsAtx (s.slice title) ∧
      s.slice code = "    ```".toList ∧ ∀ mark length, ¬StartsFence (s.slice code) mark length := by
  intro source title code trees s
  refine ⟨by cbv, by decide +kernel, by decide +kernel, by decide +kernel,
    fun mark length hfence => ?_⟩
  have hindent : ¬runLength ' ' (s.slice code) ≤ 3 := by decide +kernel
  exact hindent (startsFence_iff.mp hfence).1

end LiveMarkdown
