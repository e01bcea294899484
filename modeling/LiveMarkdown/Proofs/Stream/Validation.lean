import LiveMarkdown.Proofs.Stream.Log

/-!
# Validation of chunks

A value that is offered as a chunk is judged by its leaves, what is left of it once nested lists are
flattened. Each of them has to be text or a node. The judgement is passed on the whole value before
anything is done, and it names the first leaf that fails it; so nothing that an engine might do, or
that a diagnostic might tell, comes before a rejection. After that, only an engine can fail. A list
that passes is taken in as its items one after the other. A list that does not pass is not: its
items are judged one by one, each when it is its turn.

## Main definitions

* `Value.leaves`: what is left of a value once lists are flattened.
* `Value.firstStray?`: the first leaf that is neither text nor a node.
* `Value.AreWhole`: every leaf that has the shape of a node is one.
* `FollowsLeaves`: a judgement that names the first stray leaf, and is favourable if there is none.
* `FailsOnItsOwn`: an engine that does not pass the faults of others off as its own.

## Main results

* `Chunk.followsLeaves_ofValue`: a value is judged by its leaves.
* `Session.ingestValue_eq_of_firstStray?`: what a rejection consists of.
* `Session.exists_engine_eq_error`: what fails after it.
* `Session.ingestValue_validates_first`: the two together, for any session.
-/

namespace LiveMarkdown

variable {engine : String → Except Fault (List Node)}

namespace Value

mutual

/-- What is left of a value once lists are flattened. -/
def leaves : Value → List Value
  | list items => leavesList items
  | v => [v]

/-- What is left of values once lists are flattened. -/
def leavesList : List Value → List Value
  | [] => []
  | v :: vs => leaves v ++ leavesList vs

end

/-- Whether a value is text or has the shape of a node. -/
def isTextOrNode : Value → Bool
  | text _ => true
  | v => v.hasNodeShape

/-- Whether all that has the shape of a node among values has what its kind needs. -/
def AreWhole (leaves : List Value) : Prop :=
  ∀ leaf ∈ leaves, leaf.hasNodeShape = true → (Node.ofValue? leaf).isSome = true

instance (leaves : List Value) : Decidable (AreWhole leaves) :=
  inferInstanceAs
    (Decidable (∀ leaf ∈ leaves, leaf.hasNodeShape = true → (Node.ofValue? leaf).isSome = true))

/-- The first of some leaves that is neither text nor a node. -/
def firstStray? (leaves : List Value) : Option Value :=
  leaves.find? fun leaf => !leaf.isTextOrNode

end Value

/-! ### The judgement -/

theorem Value.firstStray?_append (xs ys : List Value) :
    firstStray? (xs ++ ys) = (firstStray? xs).or (firstStray? ys) :=
  List.find?_append

theorem Value.firstStray?_singleton (v : Value) :
    firstStray? [v] = if v.isTextOrNode then none else some v := by
  cases h : v.isTextOrNode <;> simp [firstStray?, h]

theorem Value.firstStray?_eq_none_iff {leaves : List Value} :
    firstStray? leaves = none ↔ ∀ leaf ∈ leaves, leaf.isTextOrNode = true := by
  simp [firstStray?]

/-- What is a node has the shape of one. -/
theorem Node.hasNodeShape_of_ofValue?_eq_some {v : Value} {n : Node}
    (h : Node.ofValue? v = some n) :
    v.hasNodeShape = true := by
  cases v with
  | record fields =>
    rw [Node.ofValue?, Node.assemble?] at h
    by_contra hshape
    simp [hshape] at h
  | _ => simp [Node.ofValue?] at h

/-- A judgement follows the leaves: it names the first stray leaf if there is one, and else it is
favourable. -/
def FollowsLeaves {α : Type} (leaves : List Value) (judgement : Except Fault α) : Prop :=
  match Value.firstStray? leaves with
  | some leaf => judgement = .error (.invalidChunk leaf)
  | none => ∃ a, judgement = .ok a

theorem FollowsLeaves.map {α β : Type} {leaves : List Value} {judgement : Except Fault α}
    (h : FollowsLeaves leaves judgement) (f : α → β) : FollowsLeaves leaves (judgement.map f) := by
  unfold FollowsLeaves at h ⊢
  split at h
  · rw [h]
    rfl
  · obtain ⟨a, rfl⟩ := h
    exact ⟨f a, rfl⟩

namespace Chunk

/-- A value that is not a list is its own only leaf. -/
theorem followsLeaves_ofValue_leaf {v : Value} (hlist : ∀ items, v ≠ .list items)
    (hwhole : Value.AreWhole [v]) :
    FollowsLeaves [v] (ofValue v) := by
  rw [FollowsLeaves, Value.firstStray?_singleton]
  cases v with
  | list items => exact absurd rfl (hlist items)
  | text s => exact ⟨.text s, rfl⟩
  | null | bool | number => rfl
  | record fields =>
    have htest : (Value.record fields).isTextOrNode = (Value.record fields).hasNodeShape := rfl
    rw [htest]
    cases hnode : Node.ofValue? (.record fields) with
    | some n =>
      have hjudged : ofValue (.record fields) = .ok (.node n) := by simp [ofValue, hnode]
      rw [Node.hasNodeShape_of_ofValue?_eq_some hnode, hjudged]
      exact ⟨_, rfl⟩
    | none =>
      have hjudged : ofValue (.record fields) = .error (.invalidChunk (.record fields)) := by
        simp [ofValue, hnode]
      have hshape : (Value.record fields).hasNodeShape = false := by
        simpa [hnode] using hwhole _ List.mem_cons_self
      rw [hshape, hjudged]
      rfl

mutual

/-- A value is judged by its leaves. -/
theorem followsLeaves_ofValue :
    (v : Value) → Value.AreWhole v.leaves → FollowsLeaves v.leaves (ofValue v)
  | .list items, h => by
    rw [Value.leaves, ofValue]
    exact (followsLeaves_ofValues items h).map Chunk.list
  | .null, h => followsLeaves_ofValue_leaf nofun h
  | .bool _, h => followsLeaves_ofValue_leaf nofun h
  | .number _, h => followsLeaves_ofValue_leaf nofun h
  | .text _, h => followsLeaves_ofValue_leaf nofun h
  | .record _, h => followsLeaves_ofValue_leaf nofun h

/-- Values are judged by their leaves. -/
theorem followsLeaves_ofValues : (vs : List Value) → Value.AreWhole (Value.leavesList vs) →
    FollowsLeaves (Value.leavesList vs) (ofValues vs)
  | [], _ => ⟨[], rfl⟩
  | v :: vs, h => by
    obtain ⟨hv, hvs⟩ := List.forall_mem_append.mp h
    have hfirst := followsLeaves_ofValue v hv
    have hrest := followsLeaves_ofValues vs hvs
    rw [Value.leavesList, ofValues]
    unfold FollowsLeaves at hfirst
    split at hfirst
    · rename_i leaf hstray
      rw [FollowsLeaves, Value.firstStray?_append, hstray, hfirst]
      rfl
    · rename_i hstray
      obtain ⟨c, hc⟩ := hfirst
      rw [FollowsLeaves, Value.firstStray?_append, hstray, hc]
      exact hrest.map (c :: ·)

end

/-- A value is a chunk if all its leaves are text or nodes. -/
theorem exists_ofValue_eq_ok {v : Value} (hwhole : Value.AreWhole v.leaves)
    (hleaves : ∀ leaf ∈ v.leaves, leaf.isTextOrNode = true) : ∃ c, ofValue v = .ok c := by
  have hjudged := followsLeaves_ofValue v hwhole
  rwa [FollowsLeaves, Value.firstStray?_eq_none_iff.mpr hleaves] at hjudged

end Chunk

/-! ### After the judgement -/

/-- The engine fails with messages of its own only. -/
def FailsOnItsOwn (engine : String → Except Fault (List Node)) : Prop :=
  ∀ text e, engine text = .error e → ∃ message, e = .engine message

namespace Session

/-- Reading a run anew fails exactly when the engine does. -/
theorem outcome_readRun_eq_error_iff {s : Session} {earlier : List Segment} {run : String}
    {previous : List Node} {e : Fault} :
    (s.readRun engine earlier run previous).outcome = .error e ↔
      engine (completeFragment run) = .error e := by
  simp only [readRun, Reported.outcome_bind_eq_error_iff, Reported.outcome_report,
    Reported.outcome_ofExcept, Reported.outcome_pure, completeFragment]
  simp

/-- What fails when a text or a node is taken in is the engine, on the text of a completed run. -/
theorem exists_engine_eq_error_of_ingestPlain {s : Session} {p : Piece} {e : Fault}
    (h : (s.ingestPlain engine p).outcome = .error e) :
    ∃ run, engine (completeFragment run) = .error e := by
  cases p with
  | node n => cases h
  | text t =>
    rw [ingestPlain, ingestText] at h
    split at h
    · split at h
      · cases h
      · exact ⟨_, outcome_readRun_eq_error_iff.mp h⟩
    · exact ⟨_, outcome_readRun_eq_error_iff.mp h⟩

/-- What fails when a chunk is taken in is the engine. -/
theorem exists_engine_eq_error {s : Session} {chunk : Chunk} {e : Fault}
    (h : (s.ingest engine chunk).outcome = .error e) :
    ∃ run, engine (completeFragment run) = .error e := by
  rw [ingest_eq_foldlM_ingestPlain] at h
  obtain ⟨t, p, -, hstep⟩ := Reported.exists_of_foldlM_eq_error h
  exact exists_engine_eq_error_of_ingestPlain hstep

theorem ingestValue_eq_ingest {s : Session} {v : Value} {c : Chunk} (h : Chunk.ofValue v = .ok c) :
    s.ingestValue engine v = s.ingest engine c := by
  rw [ingestValue, h]
  rfl

/-- A stray leaf is all that comes out of a value that has one: neither the engine nor a diagnostic
has a part in it. -/
theorem ingestValue_eq_of_firstStray? {v leaf : Value} (hwhole : Value.AreWhole v.leaves)
    (hleaf : Value.firstStray? v.leaves = some leaf) (s : Session) :
    s.ingestValue engine v = ⟨[], .error (.invalidChunk leaf)⟩ := by
  have hjudged := Chunk.followsLeaves_ofValue v hwhole
  rw [FollowsLeaves, hleaf] at hjudged
  rw [ingestValue, hjudged]
  rfl

/-- A list of chunks is taken in as its items one after the other. -/
theorem ingestValue_list_eq_ingestAll {s : Session} {items : List Value} {cs : List Chunk}
    (h : Chunk.ofValues items = .ok cs) :
    s.ingestValue engine (.list items) = s.ingestAll engine items := by
  have hlist : Chunk.ofValue (.list items) = .ok (.list cs) := by rw [Chunk.ofValue, h]; rfl
  rw [ingestValue_eq_ingest hlist, ingest_eq_foldlM_ingestPlain,
    ingestAll_eq_foldlM_ingestPlain engine h, Chunk.pieces]

/-- A chunk is judged as a whole before anything is done. It is rejected exactly if a leaf of it is
neither text nor a node. The fault names the first such leaf, no diagnostic has been reported by
then, and the engine has no part in it: the outcome is the same for any engine, also for one that
fails whenever it is called. Otherwise nothing but the engine fails, and a list is taken in as its
items would be. -/
theorem ingestValue_validates_first {v : Value} (hwhole : Value.AreWhole v.leaves) (s : Session) :
    (∀ engine, FailsOnItsOwn engine →
        ((∃ value, (s.ingestValue engine v).outcome = .error (.invalidChunk value)) ↔
          ∃ leaf ∈ v.leaves, leaf.isTextOrNode = false)) ∧
      (∀ leaf, Value.firstStray? v.leaves = some leaf →
        ∀ engine, s.ingestValue engine v = ⟨[], .error (.invalidChunk leaf)⟩) ∧
      ((∀ leaf ∈ v.leaves, leaf.isTextOrNode = true) → ∀ engine,
        (∀ e, (s.ingestValue engine v).outcome = .error e → ∃ text, engine text = .error e) ∧
          ∀ items, v = .list items → s.ingestValue engine v = s.ingestAll engine items) := by
  refine ⟨fun engine hengine => ⟨?_, ?_⟩,
    fun leaf hleaf engine => ingestValue_eq_of_firstStray? hwhole hleaf s, fun hleaves engine => ?_⟩
  · rintro ⟨value, hvalue⟩
    by_contra hnone
    simp only [not_exists, not_and, Bool.not_eq_false] at hnone
    obtain ⟨c, hc⟩ := Chunk.exists_ofValue_eq_ok hwhole hnone
    rw [ingestValue_eq_ingest hc] at hvalue
    obtain ⟨run, hrun⟩ := exists_engine_eq_error hvalue
    obtain ⟨message, hmessage⟩ := hengine _ _ hrun
    cases hmessage
  · rintro ⟨leaf, hmem, hleaf⟩
    cases hstray : Value.firstStray? v.leaves with
    | none => simp [Value.firstStray?_eq_none_iff.mp hstray leaf hmem] at hleaf
    | some first => exact ⟨first, by rw [ingestValue_eq_of_firstStray? hwhole hstray]⟩
  · obtain ⟨c, hc⟩ := Chunk.exists_ofValue_eq_ok hwhole hleaves
    refine ⟨fun e he => ?_, ?_⟩
    · rw [ingestValue_eq_ingest hc] at he
      obtain ⟨run, hrun⟩ := exists_engine_eq_error he
      exact ⟨completeFragment run, hrun⟩
    · rintro items rfl
      rw [Chunk.ofValue] at hc
      cases hitems : Chunk.ofValues items with
      | error e => simp [hitems, Except.map] at hc
      | ok cs => exact ingestValue_list_eq_ingestAll hitems

/-- A number deep in a list, behind text and a node, offered to a session whose engine always fails.
The list is rejected for the number. Taken in one by one, its first item gets to the engine, after
the completion of it has been reported. -/
theorem ingestValue_validates_first_with_failing_engine :
    let rule : Node := .leaf .none .thematicBreak
    let fails : String → Except Fault (List Node) := fun _ => .error (.engine "down")
    let valid : List Value := [.list [rule.toValue, .list [.text ""]], .text "*a"]
    let items : List Value := .text "*a" :: .list valid :: [.list [.number (.ofNat 42), .null]]
    Value.AreWhole (Value.list items).leaves ∧ FailsOnItsOwn fails ∧
      Session.empty.ingestValue fails (.list items) =
      ⟨[], .error (.invalidChunk (.number (.ofNat 42)))⟩ ∧
      Session.empty.ingestAll fails items = ⟨[.completionApplied "*"], .error (.engine "down")⟩ ∧
      Value.AreWhole (Value.list valid).leaves ∧
      Session.empty.ingestValue fails (.list valid) = Session.empty.ingestAll fails valid := by
  intro rule fails valid items
  have hfails : FailsOnItsOwn fails := fun _ _ h => ⟨"down", (Except.error.inj h).symm⟩
  have hitems : Value.AreWhole (Value.list items).leaves := by decide
  have hvalid : Value.AreWhole (Value.list valid).leaves := by decide
  obtain ⟨-, hrejected, -⟩ := ingestValue_validates_first hitems Session.empty
  obtain ⟨-, -, haccepted⟩ := ingestValue_validates_first hvalid Session.empty
  have hstray : Value.firstStray? (Value.list items).leaves = some (.number (.ofNat 42)) := by cbv
  exact ⟨hitems, hfails, hrejected _ hstray fails, by cbv, hvalid,
    (haccepted (by decide) fails).2 valid rfl⟩

end Session

end LiveMarkdown
