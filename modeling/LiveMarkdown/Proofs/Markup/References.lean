import LiveMarkdown.Proofs.Markup.WrittenForm

/-!
# References and their definitions

A reference takes address and title from the first definition of its identifier in document order.
The definition may stand anywhere in the markup, in front of the reference or behind it, and at any
depth. The document is that of the markup with its references written out as links and images and
without its definitions, so a further definition of an identifier that is defined already changes
nothing.

## Main definitions

* `MarkupTree.preorder`: the nodes of a markup tree in document order.
* `MarkupTree.target`: the address and the title that an identifier stands for.
* `MarkupTree.writtenOut`: a tree with its references written out.
* `MarkupTree.Inserted`: a tree is put among siblings, with the nodes in front of its place.

## Main results

* `MarkupTree.resolve_eq`: references are looked up in document order.
* `documentNodes_writtenOutList`: a document is that of the markup with its references written out.
* `MarkupTree.Inserted.target_eq`: a further definition leaves every target as it is.
* `documentNodes_resolve_references`: references, definitions and further definitions.
-/

namespace LiveMarkdown

namespace MarkupTree

/-! ### Definitions in document order -/

mutual

/-- The nodes of a tree in document order. -/
def preorder : MarkupTree → List MarkupTree
  | leaf span l => [leaf span l]
  | branch span b ts => branch span b ts :: preorderList ts

/-- The nodes of siblings in document order. -/
def preorderList : List MarkupTree → List MarkupTree
  | [] => []
  | t :: ts => preorder t ++ preorderList ts

end

/-- The address and the title that a definition gives to an identifier. Other nodes give none. -/
def definitionOf? (identifier : String) : MarkupTree → Option (String × String)
  | leaf _ (.definition name url title) =>
    if name = identifier then some (url, title.getD "") else none
  | _ => none

/-- The address and the title that an identifier stands for: those of its first definition in
document order, wherever it stands. Without a definition both are empty. -/
def target (trees : List MarkupTree) (identifier : String) : String × String :=
  ((preorderList trees).findSome? (definitionOf? identifier)).getD ("", "")

theorem preorderList_append (ts us : List MarkupTree) :
    preorderList (ts ++ us) = preorderList ts ++ preorderList us := by
  induction ts with
  | nil => rfl
  | cons t ts ih => rw [List.cons_append, preorderList, ih, preorderList, List.append_assoc]

mutual

/-- The first definition of an identifier among those of a tree is the first in document order. -/
theorem find?_definitions (identifier : String) : (t : MarkupTree) →
    ((definitions t).find? fun d => d.identifier == identifier).map (fun d => (d.url, d.title)) =
      (preorder t).findSome? (definitionOf? identifier)
  | leaf span l => by
    rw [preorder, List.findSome?_singleton]
    cases l with
    | definition name url title =>
      by_cases hname : name = identifier <;> simp [definitions, definitionOf?, hname]
    | _ => rfl
  | branch span b ts => by
    rw [definitions, preorder, find?_definitionsList identifier ts]
    rfl

/-- The first definition of an identifier among those of siblings is the first in document order. -/
theorem find?_definitionsList (identifier : String) : (ts : List MarkupTree) →
    ((definitionsList ts).find? fun d => d.identifier == identifier).map
      (fun d => (d.url, d.title)) = (preorderList ts).findSome? (definitionOf? identifier)
  | [] => rfl
  | t :: ts => by
    rw [definitionsList, preorderList, List.find?_append, List.findSome?_append, Option.map_or,
      find?_definitions identifier t, find?_definitionsList identifier ts]

end

/-- References are looked up in document order. -/
theorem resolve_eq (text : List Char) (trees : List MarkupTree) (identifier : String) :
    let d := (Source.mk text (definitionsList trees)).resolve identifier
    (d.url, d.title) = target trees identifier := by
  intro d
  rw [target, ← find?_definitionsList]
  cases hd : (definitionsList trees).find? fun d => d.identifier == identifier <;>
    simp [d, Source.resolve, hd]

end MarkupTree

/-! ### References written out -/

/-- What a leaf is with its reference written out. -/
def MarkupLeaf.writtenOut (target : String → String × String) : MarkupLeaf → MarkupLeaf
  | imageReference identifier alt => image (target identifier).1 (some (target identifier).2) alt
  | l => l

/-- What a node with children is with its reference written out. -/
def MarkupBranch.writtenOut (target : String → String × String) : MarkupBranch → MarkupBranch
  | linkReference identifier => link (target identifier).1 (some (target identifier).2)
  | b => b

/-- What the children of a node stand as. Those that give no nodes count as blocks. -/
def MarkupBranch.childContent (b : MarkupBranch) (k : MarkupContent) : MarkupContent :=
  (b.childContent? k).getD .flow

namespace MarkupTree

/-- Whether a tree is a definition. -/
def isDefinition : MarkupTree → Bool
  | leaf _ (.definition _ _ _) => true
  | _ => false

mutual

/-- The tree with its references written out, and without its definitions. -/
def writtenOut (target : String → String × String) (k : MarkupContent) : MarkupTree → MarkupTree
  | leaf span l => leaf span (l.writtenOut target)
  | branch span b ts =>
    branch span (b.writtenOut target) (writtenOutList target (b.childContent k) ts)

/-- Siblings with their references written out. Definitions are left out, unless they stand among
parts. -/
def writtenOutList (target : String → String × String) (k : MarkupContent) :
    List MarkupTree → List MarkupTree
  | [] => []
  | t :: ts =>
    if k.part? = none ∧ t.isDefinition then writtenOutList target k ts
    else writtenOut target k t :: writtenOutList target k ts

end

variable {s s' : Source} {target : String → String × String} {k : MarkupContent} {t : MarkupTree}
  {ts : List MarkupTree}

@[simp]
theorem span_writtenOut : (writtenOut target k t).span = t.span := by
  cases t <;> rw [writtenOut] <;> rfl

@[simp]
theorem checked?_writtenOut : (writtenOut target k t).checked? = t.checked? := by
  cases t with
  | leaf => rfl
  | branch span b ts => cases b <;> rfl

/-- Parts keep their places. -/
theorem writtenOutList_of_part (hk : k.part? ≠ none) :
    writtenOutList target k ts = ts.map (writtenOut target k) := by
  induction ts with
  | nil => rw [writtenOutList, List.map_nil]
  | cons t ts ih => rw [writtenOutList, if_neg (fun h => hk h.1), ih, List.map_cons]

theorem writtenOutList_append (us vs : List MarkupTree) :
    writtenOutList target k (us ++ vs) =
      writtenOutList target k us ++ writtenOutList target k vs := by
  induction us with
  | nil => rw [List.nil_append, writtenOutList, List.nil_append]
  | cons u us ih =>
    rw [List.cons_append, writtenOutList, writtenOutList, ih]
    split <;> rfl

/-- Definitions give no nodes. -/
theorem nodesAs_of_isDefinition (hk : k.part? = none) (h : t.isDefinition = true) :
    t.nodesAs s k = [] := by
  obtain ⟨inline, hinline⟩ := exists_nodesAs_eq_toNodes s hk
  rw [hinline]
  unfold isDefinition at h
  split at h
  · rw [toNodes, MarkupLeaf.toNodes]
  · cases h

/-- Siblings that are no parts give the nodes that they give with their references written out, if
each of them does. -/
theorem flatMap_nodesAs_writtenOutList (hk : k.part? = none)
    (h : ∀ t ∈ ts, (writtenOut target k t).nodesAs s' k = t.nodesAs s k) :
    (writtenOutList target k ts).flatMap (nodesAs s' k) = ts.flatMap (nodesAs s k) := by
  induction ts with
  | nil => rw [writtenOutList, List.flatMap_nil, List.flatMap_nil]
  | cons t ts ih =>
    obtain ⟨ht, hts⟩ := List.forall_mem_cons.mp h
    rw [writtenOutList, List.flatMap_cons]
    split
    · rename_i hdefinition
      rw [nodesAs_of_isDefinition hk hdefinition.2, List.nil_append, ih hts]
    · rw [List.flatMap_cons, ht, ih hts]

/-- Two sources have the same text, and in the first of them references are resolved to the given
targets. -/
structure ResolvesTo (s s' : Source) (target : String → String × String) : Prop where
  text_eq : s'.text = s.text
  target_eq : ∀ identifier, target identifier =
    ((s.resolve identifier).url, (s.resolve identifier).title)

namespace ResolvesTo

theorem slice_eq (h : ResolvesTo s s' target) : s'.slice = s.slice := by
  funext span
  unfold Source.slice
  rw [h.text_eq]

/-- A leaf gives the nodes that it gives with its reference written out. -/
theorem nodesAs_leaf (h : ResolvesTo s s' target) (span : Option Span) (l : MarkupLeaf) :
    (leaf span (l.writtenOut target)).nodesAs s' k = (leaf span l).nodesAs s k := by
  have hleaf : ∀ inline, toNodes s' inline (leaf span (l.writtenOut target)) =
      toNodes s inline (leaf span l) := by
    intro inline
    rw [toNodes, toNodes, h.slice_eq]
    cases l with
    | imageReference identifier alt =>
      rw [MarkupLeaf.writtenOut, MarkupLeaf.toNodes, MarkupLeaf.toNodes, h.target_eq]
      rfl
    | _ => rfl
  cases k with
  | flow => exact hleaf false
  | phrasing => exact hleaf true
  | items | cells => rw [nodesAs, nodesAs, contentNodes, contentNodes]
  | rows => rw [nodesAs, nodesAs, cellsOf, cellsOf]

/-- A list gives the nodes that it gives with the references in its items written out. -/
theorem toNodes_list (h : ResolvesTo s s' target) (inline ordered : Bool) (start : Option Nat)
    (spread : Bool) (span : Option Span)
    (hts : ∀ t ∈ ts, (writtenOut target .items t).nodesAs s' .items = t.nodesAs s .items) :
    toNodes s' inline
      (branch span (.list ordered start spread) (ts.map (writtenOut target .items))) =
      toNodes s inline (branch span (.list ordered start spread) ts) := by
  have hitems : ∀ attributes,
      itemNodes s' attributes (ts.map (writtenOut target .items)) = itemNodes s attributes ts := by
    intro attributes
    rw [itemNodes_eq_map, itemNodes_eq_map, List.map_map]
    refine List.map_congr_left fun t ht => ?_
    have hcontent : contentNodes s' false (writtenOut target .items t) = contentNodes s false t :=
      hts t ht
    rw [Function.comp_apply, itemNode, itemNode, checked?_writtenOut, hcontent]
  -- the items keep their places and boxes, so the marker and the tasks of the list are the same
  rw [toNodes, toNodes, h.slice_eq]
  simp only [hitems, List.head?_map, Option.map_map, List.any_map, Function.comp_def,
    span_writtenOut, checked?_writtenOut]

/-- A table gives the nodes that it gives with the references in its rows written out. -/
theorem toNodes_table (inline : Bool) (alignments : List Alignment) (span : Option Span)
    (hts : ∀ t ∈ ts, (writtenOut target .rows t).nodesAs s' .rows = t.nodesAs s .rows) :
    toNodes s' inline (branch span (.table alignments) (ts.map (writtenOut target .rows))) =
      toNodes s inline (branch span (.table alignments) ts) := by
  have hcells : ∀ t ∈ ts, cellsOf s' (writtenOut target .rows t) = cellsOf s t := hts
  have hlength : ∀ t ∈ ts, (writtenOut target .rows t).children.length = t.children.length := by
    intro t ht
    rw [← length_cellsOf s', ← length_cellsOf s, hcells t ht]
  have hwidest : widestRow (ts.map (writtenOut target .rows)) = widestRow ts := by
    refine eq_of_forall_ge_iff fun columns => ?_
    rw [widestRow_le_iff, widestRow_le_iff, List.forall_mem_map]
    exact forall₂_congr fun t ht => by rw [hlength t ht]
  have hrows : ∀ columns,
      rowNodes s' columns true (ts.map (writtenOut target .rows)) = rowNodes s columns true ts := by
    intro columns
    rw [rowNodes_eq_mapIdx, rowNodes_eq_mapIdx]
    refine List.ext_getElem (by simp) fun i hi hi' => ?_
    have hi'' : i < ts.length := by simpa using hi'
    simp [hcells _ (List.getElem_mem hi'')]
  rw [toNodes, toNodes, hwidest]
  simp only [hrows]

/-- A node with children gives the nodes that it gives with its references written out, if its
children do. -/
theorem nodesAs_branch (h : ResolvesTo s s' target) (span : Option Span) (b : MarkupBranch)
    (hts : ∀ t ∈ ts,
      (writtenOut target (b.childContent k) t).nodesAs s' (b.childContent k) =
      t.nodesAs s (b.childContent k)) :
    (writtenOut target k (branch span b ts)).nodesAs s' k = (branch span b ts).nodesAs s k := by
  have hlist : ∀ {content : MarkupContent} {inline : Bool}, content.part? = none →
      (∀ s, nodesAs s content = toNodes s inline) → b.childContent k = content →
        toNodesList s' inline (writtenOutList target content ts) = toNodesList s inline ts := by
    rintro content inline hpart hnodes rfl
    rw [toNodesList_eq_flatMap, toNodesList_eq_flatMap, ← hnodes, ← hnodes]
    exact flatMap_nodesAs_writtenOutList hpart hts
  have hflow : b.childContent k = .flow →
      toNodesList s' false (writtenOutList target .flow ts) = toNodesList s false ts :=
        hlist rfl fun _ => rfl
  have hphrasing : b.childContent k = .phrasing →
      toNodesList s' true (writtenOutList target .phrasing ts) = toNodesList s true ts :=
        hlist rfl fun _ => rfl
  rw [writtenOut]
  cases k with
  | items =>
    rw [nodesAs, nodesAs, contentNodes, contentNodes]
    exact hflow rfl
  | cells =>
    rw [nodesAs, nodesAs, contentNodes, contentNodes]
    exact hphrasing rfl
  | rows =>
    have hcells : ∀ t ∈ ts, contentNodes s' true (writtenOut target .cells t) =
        contentNodes s true t := hts
    have hmap : writtenOutList target (b.childContent .rows) ts =
        ts.map (writtenOut target .cells) :=
      writtenOutList_of_part (k := .cells) nofun
    rw [hmap, nodesAs, nodesAs, cellsOf, cellsOf, cellNodes_eq_map, cellNodes_eq_map, List.map_map]
    exact List.map_congr_left fun t ht => by rw [Function.comp_apply, hcells t ht]
  | flow | phrasing =>
    change toNodes s' _ _ = toNodes s _ _
    cases b with
    | paragraph | emphasis | strong | delete | link =>
      exact congrArg (fun ns => [Node.ofContainer _ ns]) (hphrasing rfl)
    | heading depth =>
      exact congrArg₂ (fun slice ns =>
        [Node.ofContainer (.heading depth (isSetextSource slice)) ns])
        (congrFun h.slice_eq span) (hphrasing rfl)
    | linkReference identifier =>
      rw [MarkupBranch.writtenOut, toNodes, toNodes, h.target_eq]
      exact congrArg (fun ns => [Node.ofContainer _ ns]) (hphrasing rfl)
    | blockquote | footnoteDefinition =>
      exact congrArg (fun ns => [Node.ofContainer _ ns]) (hflow rfl)
    | list ordered start spread =>
      have hmap : writtenOutList target .items ts = ts.map (writtenOut target .items) :=
        writtenOutList_of_part nofun
      exact (congrArg (fun us => toNodes s' _ (branch span _ us)) hmap).trans
        (h.toNodes_list _ ordered start spread span hts)
    | table alignments =>
      have hmap : writtenOutList target .rows ts = ts.map (writtenOut target .rows) :=
        writtenOutList_of_part nofun
      exact (congrArg (fun us => toNodes s' _ (branch span _ us)) hmap).trans
        (toNodes_table _ alignments span hts)
    | listItem | tableRow | tableCell | unknown => rfl

mutual

/-- A tree gives the nodes that it gives with its references written out. -/
theorem nodesAs_writtenOut (h : ResolvesTo s s' target) : (k : MarkupContent) → (t : MarkupTree) →
    (writtenOut target k t).nodesAs s' k = t.nodesAs s k
  | _, leaf span l => by
    rw [writtenOut]
    exact h.nodesAs_leaf span l
  | k, branch span b ts =>
    h.nodesAs_branch span b (nodesAs_writtenOut_of_mem h (b.childContent k) ts)

/-- Siblings give the nodes that they give with their references written out. -/
theorem nodesAs_writtenOut_of_mem (h : ResolvesTo s s' target) :
    (k : MarkupContent) → (ts : List MarkupTree) →
    ∀ t ∈ ts, (writtenOut target k t).nodesAs s' k = t.nodesAs s k
  | _, [] => List.forall_mem_nil _
  | k, t :: ts =>
    List.forall_mem_cons.mpr ⟨nodesAs_writtenOut h k t, nodesAs_writtenOut_of_mem h k ts⟩

end

end ResolvesTo

end MarkupTree

/-- The document of markup is that of the markup with its references written out as links and images
to their targets, and without its definitions. -/
theorem documentNodes_writtenOutList (source : String) (trees : List MarkupTree) :
    documentNodes source trees =
      documentNodes source (MarkupTree.writtenOutList (MarkupTree.target trees) .flow trees) := by
  let written := MarkupTree.writtenOutList (MarkupTree.target trees) .flow trees
  let s : Source := ⟨source.toList, MarkupTree.definitionsList trees⟩
  let s' : Source := ⟨source.toList, MarkupTree.definitionsList written⟩
  have hresolves : MarkupTree.ResolvesTo s s' (MarkupTree.target trees) :=
    ⟨rfl, fun identifier => (MarkupTree.resolve_eq source.toList trees identifier).symm⟩
  calc documentNodes source trees
      _ = trees.flatMap (MarkupTree.nodesAs s .flow) :=
        MarkupTree.toNodesList_eq_flatMap s false trees
      _ = written.flatMap (MarkupTree.nodesAs s' .flow) :=
        (MarkupTree.flatMap_nodesAs_writtenOutList rfl
          (hresolves.nodesAs_writtenOut_of_mem .flow trees)).symm
      _ = documentNodes source written := (MarkupTree.toNodesList_eq_flatMap s' false written).symm

/-! ### Further definitions -/

namespace MarkupTree

/-- A tree is put among siblings that stand as given, or somewhere below them, but not among parts.
Here `earlier` are the nodes in front of its place in document order. -/
inductive Inserted (new : MarkupTree) :
    MarkupContent → List MarkupTree → List MarkupTree → List MarkupTree → Prop
  | among {k : MarkupContent} (hk : k.part? = none) (before after : List MarkupTree) :
      Inserted new k (preorderList before) (before ++ after) (before ++ new :: after)
  | within {k : MarkupContent} {earlier ts ts' : List MarkupTree} (before after : List MarkupTree)
      (span : Option Span) {b : MarkupBranch} (h : Inserted new (b.childContent k) earlier ts ts') :
      Inserted new k (preorderList before ++ branch span b ts :: earlier)
        (before ++ branch span b ts :: after) (before ++ branch span b ts' :: after)

namespace Inserted

variable {new : MarkupTree} {earlier ts ts' : List MarkupTree} {k : MarkupContent}
  {target : String → String × String}

/-- A definition is looked for in front of the new tree first, then in the new tree, and behind it
last. -/
theorem exists_findSome?_eq (h : Inserted new k earlier ts ts') :
    ∃ later : List MarkupTree, ∀ identifier, let find := List.findSome? (definitionOf? identifier)
      find (preorderList ts) = (find earlier).or (find later) ∧
        find (preorderList ts') = (find earlier).or ((find new.preorder).or (find later)) := by
  induction h with
  | among _ before after =>
    refine ⟨preorderList after, fun identifier => ?_⟩
    simp [preorderList_append, preorderList, List.findSome?_append]
  | within before after span _ ih =>
    obtain ⟨later, hlater⟩ := ih
    refine ⟨later ++ preorderList after, fun identifier => ?_⟩
    obtain ⟨hold, hnew⟩ := hlater identifier
    have hbranch : ∀ b us, definitionOf? identifier (branch span b us) = none := fun _ _ => rfl
    simp [preorderList_append, preorderList, preorder, List.findSome?_append, hbranch, hold, hnew,
      Option.or_assoc]

/-- A definition of an identifier that is defined in front of it changes no target. -/
theorem target_eq {span : Option Span} {identifier url : String} {title : Option String}
    (h : Inserted (leaf span (.definition identifier url title)) k earlier ts ts')
    (hdefined : ∃ t ∈ earlier, (definitionOf? identifier t).isSome = true) :
    MarkupTree.target ts' = MarkupTree.target ts := by
  obtain ⟨later, hlater⟩ := h.exists_findSome?_eq
  funext name
  obtain ⟨hold, hnew⟩ := hlater name
  rw [MarkupTree.target, MarkupTree.target, hold, hnew]
  by_cases hname : identifier = name
  · subst hname
    obtain ⟨first, hfirst⟩ := Option.isSome_iff_exists.mp (List.findSome?_isSome_iff.mpr hdefined)
    rw [hfirst, Option.some_or, Option.some_or]
  · have hother :
        (preorder (leaf span (.definition identifier url title))).findSome? (definitionOf? name) =
          none := by
      simp [preorder, definitionOf?, hname]
    rw [hother, Option.none_or]

/-- A definition that is put among siblings is left out where references are written out. -/
theorem writtenOutList_eq (h : Inserted new k earlier ts ts') (hnew : new.isDefinition = true) :
    writtenOutList target k ts' = writtenOutList target k ts := by
  induction h with
  | among hk before after =>
    rw [writtenOutList_append, writtenOutList_append, writtenOutList, if_pos ⟨hk, hnew⟩]
  | within before after span _ ih =>
    rw [writtenOutList_append, writtenOutList_append, writtenOutList, writtenOutList, writtenOut,
      writtenOut, ih]
    rfl

end Inserted

end MarkupTree

/-- References take address and title from the first definition of their identifier in document
order: the document is that of the markup with its references written out and without its
definitions. A reference that stands among blocks or inlines gives a link or an image to its target,
which is in the document, and a definition gives no node. Another definition of an identifier
changes nothing, wherever it is put behind a definition that is there. -/
theorem documentNodes_resolve_references (source : String) (trees : List MarkupTree) :
    let s : Source := ⟨source.toList, MarkupTree.definitionsList trees⟩
    let target := MarkupTree.target trees
    let nodes := documentNodes source trees
    nodes = documentNodes source (MarkupTree.writtenOutList target .flow trees) ∧
      (∀ k span identifier ts,
        let reference := MarkupTree.branch span (.linkReference identifier) ts
        k.part? = none → MarkupTree.Stands trees k reference →
          let (url, title) := target identifier
          let n := Node.ofContainer (.link url title) (MarkupTree.toNodesList s true ts)
          reference.nodesAs s k = [n] ∧ n ∈ Node.preorderList nodes) ∧
      (∀ k span identifier alt,
        let reference := MarkupTree.leaf span (.imageReference identifier alt)
        k.part? = none → MarkupTree.Stands trees k reference →
          let (url, title) := target identifier
          let n := Node.ofContainer (.image url title) (altNodes alt)
          reference.nodesAs s k = [n] ∧ n ∈ Node.preorderList nodes) ∧
      ∀ span identifier url title,
        let definition := MarkupTree.leaf span (.definition identifier url title)
        (∀ k, k.part? = none → definition.nodesAs s k = []) ∧
          ∀ earlier trees', MarkupTree.Inserted definition .flow earlier trees trees' →
            (∃ t ∈ earlier, (MarkupTree.definitionOf? identifier t).isSome = true) →
              documentNodes source trees' = nodes := by
  intro s target nodes
  have htarget : ∀ identifier, target identifier =
      ((s.resolve identifier).url, (s.resolve identifier).title) :=
    fun identifier => (MarkupTree.resolve_eq source.toList trees identifier).symm
  have hmem : ∀ {k : MarkupContent} {t : MarkupTree} {n : Node}, MarkupTree.Stands trees k t →
      t.nodesAs s k = [n] → n ∈ Node.preorderList nodes := by
    intro k t n hstands hnodes
    exact hstands.preorderList_nodesAs_subset s
      (Node.mem_preorderList_of_mem (hnodes ▸ List.mem_singleton_self n))
  refine ⟨documentNodes_writtenOutList source trees, ?_, ?_,
    fun span identifier url title => ⟨?_, ?_⟩⟩
  · intro k span identifier ts reference hk hstands
    obtain ⟨inline, hinline⟩ := MarkupTree.exists_nodesAs_eq_toNodes s hk
    have hnodes : reference.nodesAs s k =
        [Node.ofContainer (.link (target identifier).1 (target identifier).2)
          (MarkupTree.toNodesList s true ts)] := by
      rw [hinline, MarkupTree.toNodes, htarget]
    exact ⟨hnodes, hmem hstands hnodes⟩
  · intro k span identifier alt reference hk hstands
    obtain ⟨inline, hinline⟩ := MarkupTree.exists_nodesAs_eq_toNodes s hk
    have hnodes : reference.nodesAs s k =
        [Node.ofContainer (.image (target identifier).1 (target identifier).2) (altNodes alt)] := by
      rw [hinline, MarkupTree.toNodes, MarkupLeaf.toNodes, htarget]
    exact ⟨hnodes, hmem hstands hnodes⟩
  · exact fun k hk => MarkupTree.nodesAs_of_isDefinition hk rfl
  · intro earlier trees' hinserted hdefined
    calc documentNodes source trees'
        _ = documentNodes source
          (MarkupTree.writtenOutList (MarkupTree.target trees') .flow trees') :=
          documentNodes_writtenOutList source trees'
        _ = documentNodes source (MarkupTree.writtenOutList target .flow trees) := by
          rw [hinserted.target_eq hdefined, hinserted.writtenOutList_eq rfl]
        _ = nodes := (documentNodes_writtenOutList source trees).symm

/-- A link and an image in a quote. The link is defined behind it in a list, where a further
definition of it is put into the same item, and the image is not defined. -/
theorem documentNodes_resolve_references_in_quote :
    let link := MarkupTree.branch none (.linkReference "d") [.leaf none (.text "a")]
    let image := MarkupTree.leaf none (.imageReference "e" (some "b"))
    let first := MarkupTree.leaf none (.definition "d" "u" (some "t"))
    let further := MarkupTree.leaf none (.definition "d" "v" none)
    let quote := MarkupTree.branch none .blockquote [.branch none .paragraph [link, image]]
    let item (content : List MarkupTree) := MarkupTree.branch none (.listItem none) content
    let list (content : List MarkupTree) :=
      MarkupTree.branch none (.list false none false) [item content]
    let trees := [quote, list [first]]
    let nodes := Node.preorderList (documentNodes "" trees)
    let earlier := MarkupTree.preorderList [quote] ++ [list [first], item [first], first]
    MarkupTree.Stands trees .phrasing link ∧ MarkupTree.Stands trees .phrasing image ∧
      MarkupTree.target trees "d" = ("u", "t") ∧ MarkupTree.target trees "e" = ("", "") ∧
      Node.ofContainer (.link "u" "t") [Node.text "a"] ∈ nodes ∧
      Node.ofContainer (.image "" "") [Node.text "b"] ∈ nodes ∧
      MarkupTree.Inserted further .flow earlier trees [quote, list [first, further]] ∧
      (∃ t ∈ earlier, (MarkupTree.definitionOf? "d" t).isSome = true) ∧
      documentNodes "" [quote, list [first, further]] = documentNodes "" trees := by
  intro link image first further quote item list trees nodes earlier
  have hquote : MarkupTree.Stands trees .flow quote := .root List.mem_cons_self
  have hparagraph : MarkupTree.Stands trees .flow (.branch none .paragraph [link, image]) :=
    .child hquote rfl (List.mem_singleton_self _)
  have hlink : MarkupTree.Stands trees .phrasing link := .child hparagraph rfl List.mem_cons_self
  have himage : MarkupTree.Stands trees .phrasing image :=
    .child hparagraph rfl (List.mem_cons_of_mem _ (List.mem_singleton_self _))
  have hitem : MarkupTree.Inserted further .flow [first] [first] [first, further] :=
    .among rfl [first] []
  have hlist :
      MarkupTree.Inserted further .items [item [first], first] [item [first]]
        [item [first, further]] :=
    .within [] [] none hitem
  have hinserted : MarkupTree.Inserted further .flow earlier trees [quote, list [first, further]] :=
    .within [quote] [] none hlist
  have hdefined : ∃ t ∈ earlier, (MarkupTree.definitionOf? "d" t).isSome = true :=
    ⟨first, List.mem_append_right _ (by simp), rfl⟩
  obtain ⟨-, hlinks, himages, hdefinitions⟩ := documentNodes_resolve_references "" trees
  refine ⟨hlink, himage, by decide, by decide, (hlinks .phrasing none "d" _ rfl hlink).2,
    (himages .phrasing none "e" _ rfl himage).2, hinserted, hdefined, ?_⟩
  exact (hdefinitions none "d" "v" none).2 _ _ hinserted hdefined

end LiveMarkdown
