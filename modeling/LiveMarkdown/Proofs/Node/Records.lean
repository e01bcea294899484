import Mathlib.Data.List.Nodup
import LiveMarkdown.Proofs.Node.Flags
import LiveMarkdown.Value.Node

/-!
# Nodes compared field by field

Two nodes have equal content if their records agree field by field, flags apart, and so do their
children one by one. Which attributes a node has depends on its kind alone, and the node can be read
back from them: so a record that agrees in all of them is of the same content, and no attribute is
left out of the comparison. What is compared in this way is the tree without its flags.

## Main definitions

* `fieldsAgree`: two lists of named values agree.
* `Node.attributes`: the fields of a node apart from flags and children.
* `Node.sameFields`: the comparison field by field.

## Main results

* `fieldsAgree_iff_eq`: values under the same names agree exactly if they are equal.
* `Node.contentOf?_attributes`: a node is read back from its attributes.
* `Node.sameFields_eq_sameContent`: equal content is what the comparison field by field finds.
* `Node.sameContent_is_equality_up_to_flags`: the comparison is the equality of trees without flags.
-/

namespace LiveMarkdown

/-! ### Values -/

namespace Value

/-- Whether a value has no parts. -/
def isPlain : Value → Bool
  | list _ | record _ => false
  | _ => true

/-- Whether a value may be that of an attribute: it has no parts, or is a list of values without
parts. -/
def isFlat : Value → Bool
  | list items => items.all isPlain
  | v => v.isPlain

/-- Whether two values without parts are the same. -/
def isSame : Value → Value → Bool
  | null, null => true
  | bool a, bool b => a == b
  | number a, number b => a == b
  | text a, text b => a == b
  | _, _ => false

/-- Whether two values of attributes agree. Lists agree item by item. -/
def agrees : Value → Value → Bool
  | list as, list bs => as.length == bs.length && (as.zip bs).all fun pair => pair.1.isSame pair.2
  | a, b => a.isSame b

theorem isSame_iff_eq {a b : Value} (ha : a.isPlain = true) : a.isSame b = true ↔ a = b := by
  cases a <;> cases b <;> simp_all [isSame, isPlain]

theorem all_isSame_zip_iff_eq {as bs : List Value} (has : as.all isPlain = true) :
    (as.length == bs.length && (as.zip bs).all fun pair => pair.1.isSame pair.2) = true ↔
      as = bs := by
  induction as generalizing bs with
  | nil => cases bs <;> simp
  | cons a as ih =>
    cases bs with
    | nil => simp
    | cons b bs =>
      rw [List.all_cons, Bool.and_eq_true] at has
      rw [List.cons.injEq, ← isSame_iff_eq has.1, ← ih has.2]
      simp [and_left_comm]

theorem agrees_iff_eq {a b : Value} (ha : a.isFlat = true) : a.agrees b = true ↔ a = b := by
  cases a with
  | list as =>
    cases b with
    | list bs => rw [agrees, all_isSame_zip_iff_eq ha, list.injEq]
    | _ => simp [agrees, isSame]
  | record => cases ha
  | _ => exact isSame_iff_eq ha

/-- A field is found by its name, if no two fields have the same. -/
theorem field?_of_mem {fields : List (String × Value)} {name : String} {value : Value}
    (hnames : (fields.map Prod.fst).Nodup) (hmem : (name, value) ∈ fields) :
    (record fields).field? name = some value := by
  induction fields with
  | nil => cases hmem
  | cons field fields ih =>
    rw [List.map_cons, List.nodup_cons] at hnames
    rw [field?, List.find?_cons]
    rcases List.mem_cons.mp hmem with rfl | hmem
    · simp
    · have hname : field.1 ≠ name := fun heq => hnames.1 (heq ▸ List.mem_map_of_mem hmem)
      rw [beq_eq_false_iff_ne.mpr hname]
      exact ih hnames.2 hmem

@[simp]
theorem nat?_ofNat (n : Nat) : (ofNat n).nat? = some n := by
  simp only [ofNat, nat?, Decimal.ofNat, Decimal.toNat?, Decimal.toInt?]
  simp [Int.toNat?]

end Value

/-- Whether two lists of named values agree: they are of the same length, and every value of the
first agrees with the one of the same name in the second. -/
def fieldsAgree (as bs : List (String × Value)) : Bool :=
  as.length == bs.length &&
    as.all fun field =>
      match (Value.record bs).field? field.1 with
      | some value => field.2.agrees value
      | none => false

/-- Values under the same names agree exactly if they are equal. -/
theorem fieldsAgree_iff_eq {as bs : List (String × Value)}
    (hnames : as.map Prod.fst = bs.map Prod.fst) (hnodup : (as.map Prod.fst).Nodup)
    (hflat : ∀ field ∈ as, field.2.isFlat = true) :
    fieldsAgree as bs = true ↔ as = bs := by
  have hfield : ∀ name value, (name, value) ∈ bs → (Value.record bs).field? name = some value :=
    fun name value => Value.field?_of_mem (hnames ▸ hnodup)
  rw [fieldsAgree, Bool.and_eq_true, beq_iff_eq, List.all_eq_true]
  constructor
  · rintro ⟨hlength, hagrees⟩
    refine List.ext_getElem hlength fun i ha hb => ?_
    have hname : as[i].1 = bs[i].1 := by
      have hget : (as.map Prod.fst)[i]? = (bs.map Prod.fst)[i]? := by rw [hnames]
      simpa [ha, hb] using hget
    have hvalue := hagrees as[i] (List.getElem_mem ha)
    rw [hname, hfield bs[i].1 bs[i].2 (List.getElem_mem hb)] at hvalue
    exact Prod.ext hname ((Value.agrees_iff_eq (hflat _ (List.getElem_mem ha))).mp hvalue)
  · rintro rfl
    refine ⟨rfl, fun field hmem => ?_⟩
    rw [hfield field.1 field.2 hmem]
    exact (Value.agrees_iff_eq (hflat field hmem)).mpr rfl

/-! ### Attributes -/

/-- The names of the attributes that a node of a kind has, in order. -/
def NodeKind.attributeNames : NodeKind → List String
  | frontMatter | htmlBlock | mathBlock | text | htmlInline | raw => ["literal"]
  | heading => ["level", "setext"]
  | list => ["listType", "start", "delimiter", "bulletChar", "tight", "isTaskList"]
  | codeBlock => ["fenced", "fenceChar", "fenceLength", "info", "literal"]
  | table => ["alignments", "numColumns", "numRows"]
  | footnoteDefinition | footnoteReference => ["name"]
  | listItem => ["listType", "start", "bulletChar"]
  | taskItem => ["checked", "marker"]
  | tableRow => ["header"]
  | code => ["numBackticks", "literal"]
  | link | image => ["url", "title"]
  | math => ["displayMath", "literal"]
  | _ => []

theorem Leaf.map_fst_fields (l : Leaf) : l.fields.map Prod.fst = l.kind.attributeNames := by
  cases l <;> rfl

theorem Container.map_fst_fields (c : Container) :
    c.fields.map Prod.fst = c.kind.attributeNames := by
  cases c <;> rfl

theorem Leaf.isFlat_of_mem_fields (l : Leaf) : ∀ field ∈ l.fields, field.2.isFlat = true := by
  cases l <;> simp [fields, Value.isFlat, Value.isPlain, Value.ofNat]

theorem Container.isFlat_of_mem_fields (c : Container) :
    ∀ field ∈ c.fields, field.2.isFlat = true := by
  cases c <;> simp [fields, Value.isFlat, Value.isPlain, Value.ofNat]

@[simp]
theorem ListType.ofName?_name (t : ListType) : ofName? t.name = some t := by
  cases t <;> rfl

@[simp]
theorem ListDelimiter.ofName?_name (d : ListDelimiter) : ofName? d.name = some d := by
  cases d <;> rfl

@[simp]
theorem Alignment.ofName?_name (a : Alignment) : ofName? a.name = some a := by
  cases a <;> rfl

@[simp]
theorem fenceOfText?_fenceText (mark : Option FenceMark) :
    fenceOfText? (fenceText mark) = some mark := by
  rcases mark with _ | mark
  · rfl
  · cases mark <;> rfl

namespace Node

/-- The fields of the record of a node, without its flags and its children. -/
def attributes (n : Node) : List (String × Value) :=
  match n.toValue with
  | .record fields => fields.filter fun field => field.1 != "flags" && field.1 != "children"
  | _ => []

theorem attributes_leaf (f : NodeFlags) (l : Leaf) :
    (leaf f l).attributes = ("kind", Value.ofNat l.kind.toNat) :: l.fields := by
  rw [attributes, toValue]
  cases l <;> simp [commonFields, Leaf.fields]

theorem attributes_branch (f : NodeFlags) (c : Container) (ns : List Node) :
    (branch f c ns).attributes = ("kind", Value.ofNat c.kind.toNat) :: c.fields := by
  rw [attributes, toValue]
  cases c <;> simp [commonFields, Container.fields]

@[simp]
theorem alignmentsOf?_names (alignments : List Alignment) :
    alignmentsOf? (.list (alignments.map fun x => .text x.name)) = some alignments := by
  rw [alignmentsOf?, Value.list?, Option.bind_some]
  induction alignments with
  | nil => rfl
  | cons x alignments ih =>
    rw [List.map_cons, List.mapM_cons, ih]
    simp [Value.text?]

/-- The kind is read back from a record that starts with it. -/
theorem kind?_record (k : NodeKind) (fields : List (String × Value)) :
    (Value.record (("kind", Value.ofNat k.toNat) :: fields)).kind? = some k := by
  simp [Value.kind?, Value.field?, NodeKind.ofNat?_toNat]

/-- What a node is, without its flags and its children. -/
def content : Node → Leaf ⊕ Container
  | leaf _ l => .inl l
  | branch _ c _ => .inr c

/-- What a node is can be read back from its attributes. -/
theorem contentOf?_attributes (n : Node) : contentOf? (.record n.attributes) = some n.content := by
  cases n with
  | leaf f l =>
    rw [attributes_leaf, contentOf?, kind?_record]
    cases l <;> simp [Leaf.kind, Leaf.fields, Value.field?, Value.text?, Value.bool?, content]
  | branch f c ns =>
    rw [attributes_branch, contentOf?, kind?_record]
    cases c <;> simp [Container.kind, Container.fields, Value.field?, Value.text?, Value.bool?,
      content]

/-- Nodes of one kind have attributes of the same names. -/
theorem map_fst_attributes (n : Node) :
    n.attributes.map Prod.fst = "kind" :: n.kind.attributeNames := by
  cases n with
  | leaf f l => rw [attributes_leaf, List.map_cons, l.map_fst_fields, kind]
  | branch f c ns => rw [attributes_branch, List.map_cons, c.map_fst_fields, kind]

theorem nodup_map_fst_attributes (n : Node) : (n.attributes.map Prod.fst).Nodup := by
  rw [map_fst_attributes]
  cases n.kind <;> simp [NodeKind.attributeNames]

theorem isFlat_of_mem_attributes (n : Node) : ∀ field ∈ n.attributes, field.2.isFlat = true := by
  cases n with
  | leaf f l =>
    rw [attributes_leaf]
    exact List.forall_mem_cons.mpr ⟨rfl, l.isFlat_of_mem_fields⟩
  | branch f c ns =>
    rw [attributes_branch]
    exact List.forall_mem_cons.mpr ⟨rfl, c.isFlat_of_mem_fields⟩

/-! ### The comparison -/

/-- Whether two nodes are of one kind and their attributes agree. -/
def sameAttributes (n m : Node) : Bool :=
  n.kind == m.kind && fieldsAgree n.attributes m.attributes

mutual

/-- Whether two trees agree field by field, flags apart: the nodes are of one kind, their attributes
agree, and they have as many children, which agree one by one. -/
def sameFields : Node → Node → Bool
  | leaf f l, m => (leaf f l).sameAttributes m && m.children.isEmpty
  | branch f c ns, m => (branch f c ns).sameAttributes m && sameFieldsList ns m.children

/-- Whether siblings agree one by one. -/
def sameFieldsList : List Node → List Node → Bool
  | [], ms => ms.isEmpty
  | _ :: _, [] => false
  | n :: ns, m :: ms => sameFields n m && sameFieldsList ns ms

end

/-- Nodes agree in their attributes exactly if they are the same. -/
theorem sameAttributes_iff_content_eq (n m : Node) :
    n.sameAttributes m = true ↔ n.content = m.content := by
  rw [sameAttributes, Bool.and_eq_true, beq_iff_eq]
  constructor
  · rintro ⟨hkind, hagree⟩
    have hnames : n.attributes.map Prod.fst = m.attributes.map Prod.fst := by
      rw [map_fst_attributes, map_fst_attributes, hkind]
    have hattributes :=
      (fieldsAgree_iff_eq hnames n.nodup_map_fst_attributes n.isFlat_of_mem_attributes).mp hagree
    apply Option.some.inj
    rw [← contentOf?_attributes, ← contentOf?_attributes, hattributes]
  · intro hcontent
    have hsame : n.kind = m.kind ∧ n.attributes = m.attributes := by
      cases n <;> cases m <;> cases hcontent
      · exact ⟨rfl, by rw [attributes_leaf, attributes_leaf]⟩
      · exact ⟨rfl, by rw [attributes_branch, attributes_branch]⟩
    refine ⟨hsame.1, ?_⟩
    exact (fieldsAgree_iff_eq (by rw [hsame.2]) n.nodup_map_fst_attributes
      n.isFlat_of_mem_attributes).mpr hsame.2

mutual

/-- What the comparison field by field finds is equal content. -/
theorem sameFields_eq_sameContent : (n m : Node) → n.sameFields m = n.sameContent m
  | leaf f l, leaf g k => by
    rw [Bool.eq_iff_iff]
    simp [sameFields, sameContent, sameAttributes_iff_content_eq, content, children]
  | leaf f l, branch g d ms => by
    rw [Bool.eq_iff_iff]
    simp [sameFields, sameContent, sameAttributes_iff_content_eq, content]
  | branch f c ns, leaf g k => by
    rw [Bool.eq_iff_iff]
    simp [sameFields, sameContent, sameAttributes_iff_content_eq, content]
  | branch f c ns, branch g d ms => by
    rw [Bool.eq_iff_iff]
    simp [sameFields, sameContent, sameAttributes_iff_content_eq, content, children,
      sameFieldsList_eq_sameContentList ns ms]

theorem sameFieldsList_eq_sameContentList :
    (ns ms : List Node) → sameFieldsList ns ms = sameContentList ns ms
  | [], [] => rfl
  | [], _ :: _ => rfl
  | _ :: _, [] => rfl
  | n :: ns, m :: ms => by
    rw [sameFieldsList, sameContentList, sameFields_eq_sameContent n m,
      sameFieldsList_eq_sameContentList ns ms]

end

/-- Equal content is equality up to flags: two trees have it exactly if they agree field by field,
and exactly if they become equal when all flags are erased. So it is an equivalence relation, and
equality among trees without flags. -/
theorem sameContent_is_equality_up_to_flags :
    (∀ n m : Node, n.sameContent m = n.sameFields m) ∧
      (∀ n m : Node, n.sameContent m = true ↔ n.eraseFlags = m.eraseFlags) ∧
      Equivalence (fun n m : Node => n.sameContent m = true) ∧
      ∀ n m : Node, n.Unflagged → m.Unflagged → (n.sameContent m = true ↔ n = m) := by
  refine ⟨fun n m => (sameFields_eq_sameContent n m).symm, sameContent_iff_eraseFlags_eq, ?_,
    fun n m hn hm => ?_⟩
  · have herase : (fun n m : Node => n.sameContent m = true) =
        fun n m => n.eraseFlags = m.eraseFlags := by
      funext n m
      exact propext (sameContent_iff_eraseFlags_eq n m)
    rw [herase]
    exact ⟨fun _ => rfl, Eq.symm, Eq.trans⟩
  · rw [sameContent_iff_eraseFlags_eq, hn, hm]

/-- A list under marks has the content of the list without them. The same list with space between
its items is another one: it differs in one attribute, and neither of the two carries flags. -/
theorem sameContent_is_equality_up_to_flags_of_marked_list :
    let item := Container.listItem {}
    let text := Node.text "a"
    let tight : ListAttributes := { tight := true }
    let loose : ListAttributes := { tight := false }
    let marked := branch .speculative (.list tight) [branch .synthetic item [text]]
    let plain := Node.list tight [ofContainer item [text]]
    let spaced := Node.list loose [ofContainer item [text]]
    marked ≠ plain ∧ marked.sameFields plain = true ∧ marked.sameContent plain = true ∧
      plain.Unflagged ∧ spaced.Unflagged ∧ plain ≠ spaced ∧ plain.sameContent spaced = false := by
  intro item text tight loose marked plain spaced
  obtain ⟨hfields, herase, -, hunflagged⟩ := sameContent_is_equality_up_to_flags
  have hmarked : marked.sameContent plain = true := (herase marked plain).mpr rfl
  have hne : plain ≠ spaced := fun heq => absurd (congrArg content heq) (by decide)
  have hmark : marked ≠ plain := fun heq => absurd (congrArg flags heq) (by decide)
  refine ⟨hmark, (hfields marked plain) ▸ hmarked, hmarked, rfl, rfl, hne, ?_⟩
  exact Bool.eq_false_iff.mpr fun hsame => hne ((hunflagged plain spaced rfl rfl).mp hsame)

end Node

end LiveMarkdown
