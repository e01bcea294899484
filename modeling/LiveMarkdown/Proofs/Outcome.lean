import LiveMarkdown.Reported

/-!
# Work done in steps

Work with diagnostics obeys the laws of sequencing, so that a run over a list can be cut and
regrouped at will. The outcome of work in two steps is a success exactly when both steps succeed;
from this a property that every step keeps holds at the end of every run that succeeds.

## Main results

* `Reported.outcome_bind_eq_ok_iff`, `Reported.outcome_bind_eq_error_iff`: when work in two steps
  succeeds or fails.
* `Reported.foldlM_flatMap`: a run over runs is one run.
* `Reported.foldlM_invariant`: what every step keeps holds after a run.
-/

namespace LiveMarkdown.Reported

variable {α β γ : Type}

instance : LawfulMonad Reported :=
  LawfulMonad.mk' Reported
    (by
      rintro α ⟨ds, o⟩
      cases o with
      | error e => rfl
      | ok a => exact congrArg (Reported.mk · (.ok a)) (List.append_nil ds))
    (fun _ _ => rfl)
    (by
      rintro α β γ ⟨ds, o⟩ f g
      cases o with
      | error e => rfl
      | ok a =>
        change Reported.bind (Reported.bind ⟨ds, .ok a⟩ f) g =
          Reported.bind ⟨ds, .ok a⟩ fun x => Reported.bind (f x) g
        rw [bind_ok, bind_ok]
        obtain ⟨es, p⟩ := f a
        cases p with
        | error e => rfl
        | ok b => simp only [bind_ok, List.append_assoc])

/-- Work in two steps succeeds exactly when both steps do. -/
theorem outcome_bind_eq_ok_iff {r : Reported α} {f : α → Reported β} {b : β} :
    (r >>= f).outcome = .ok b ↔ ∃ a, r.outcome = .ok a ∧ (f a).outcome = .ok b := by
  obtain ⟨ds, o⟩ := r
  cases o with
  | error e =>
    change Except.error e = Except.ok b ↔ _
    simp
  | ok a =>
    change (f a).outcome = .ok b ↔ _
    simp

/-- Work in two steps fails exactly when the first step does, or the second one behind it. -/
theorem outcome_bind_eq_error_iff {r : Reported α} {f : α → Reported β} {e : Fault} :
    (r >>= f).outcome = .error e ↔
      r.outcome = .error e ∨ ∃ a, r.outcome = .ok a ∧ (f a).outcome = .error e := by
  obtain ⟨ds, o⟩ := r
  cases o with
  | error e' =>
    change Except.error e' = Except.error e ↔ _
    simp
  | ok a =>
    change (f a).outcome = .error e ↔ _
    simp

@[simp] theorem outcome_pure (a : α) : (pure a : Reported α).outcome = .ok a := rfl

@[simp] theorem outcome_report (ds : List Diagnostic) : (report ds).outcome = .ok () := rfl

@[simp] theorem outcome_ofExcept (e : Except Fault α) : (ofExcept e).outcome = e := rfl

/-- A run over runs is one run over all their steps. -/
theorem foldlM_flatMap (f : β → γ → Reported β) (g : α → List γ) (as : List α) (b : β) :
    (as.flatMap g).foldlM f b = as.foldlM (fun b a => (g a).foldlM f b) b := by
  induction as generalizing b with
  | nil => rfl
  | cons a as ih =>
    rw [List.flatMap_cons, List.foldlM_append, List.foldlM_cons]
    exact bind_congr ih

/-- A property of what has been done and of the state, kept by every step that succeeds, holds at
the end of a run that succeeds. -/
theorem foldlM_invariant {f : β → α → Reported β} {inv : List α → β → Prop}
    (step : ∀ done b a b', inv done b → (f b a).outcome = .ok b' → inv (done ++ [a]) b') :
    ∀ (as done : List α) (b b' : β), inv done b → (as.foldlM f b).outcome = .ok b' →
      inv (done ++ as) b'
  | [], done, b, b', hb, h => by
    obtain rfl : b = b' := by simpa using h
    simpa using hb
  | a :: as, done, b, b', hb, h => by
    rw [List.foldlM_cons, outcome_bind_eq_ok_iff] at h
    obtain ⟨c, hc, h⟩ := h
    have key := foldlM_invariant step as (done ++ [a]) c b' (step done b a c hb hc) h
    simpa using key

/-- A run that fails does so in one of its steps. -/
theorem exists_of_foldlM_eq_error {f : β → α → Reported β} {as : List α} {b : β} {e : Fault}
    (h : (as.foldlM f b).outcome = .error e) : ∃ c, ∃ a ∈ as, (f c a).outcome = .error e := by
  induction as generalizing b with
  | nil => simp at h
  | cons a as ih =>
    rw [List.foldlM_cons, outcome_bind_eq_error_iff] at h
    rcases h with h | ⟨c, -, h⟩
    · exact ⟨b, a, List.mem_cons_self, h⟩
    · obtain ⟨d, x, hx, hstep⟩ := ih h
      exact ⟨d, x, List.mem_cons_of_mem a hx, hstep⟩

/-- A run succeeds if every step succeeds in the states that the invariant allows. -/
theorem exists_foldlM_eq_ok {f : β → α → Reported β} (inv : List α → β → Prop)
    (step : ∀ done b a, inv done b → ∀ b', (f b a).outcome = .ok b' → inv (done ++ [a]) b')
    (as : List α) :
    ∀ (done : List α) (b : β), inv done b →
      (∀ pre a post b, as = pre ++ a :: post → inv (done ++ pre) b →
        ∃ b', (f b a).outcome = .ok b') →
      ∃ b', (as.foldlM f b).outcome = .ok b' ∧ inv (done ++ as) b' := by
  induction as with
  | nil => exact fun done b hb _ => ⟨b, rfl, by simpa using hb⟩
  | cons a as ih =>
    intro done b hb succeeds
    obtain ⟨c, hc⟩ := succeeds [] a as b rfl (by simpa using hb)
    have hinv := step done b a hb c hc
    obtain ⟨b', hb', hend⟩ := ih (done ++ [a]) c hinv fun pre x post d hd hpre =>
      succeeds (a :: pre) x post d (by rw [hd]; rfl) (by simpa using hpre)
    refine ⟨b', ?_, by simpa using hend⟩
    rw [List.foldlM_cons, outcome_bind_eq_ok_iff]
    exact ⟨c, hc, hb'⟩

end LiveMarkdown.Reported
