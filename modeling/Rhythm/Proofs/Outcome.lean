import Mathlib.Data.List.Forall2

/-
This file says when a computation that may fail succeeds, step by step. The main statements are
`bind_eq_ok_iff` and `mapM_eq_ok_iff`.
-/

namespace Rhythm.Outcome

variable {E F A B C : Type}

/-- Two steps succeed when both of them do. -/
theorem bind_eq_ok_iff {outcome : Except E A} {next : A → Except E B} {value : B} :
    (outcome >>= next) = .ok value ↔
      ∃ middle, outcome = .ok middle ∧ next middle = .ok value := by
  cases outcome with
  | error fault => simp [bind, Except.bind]
  | ok middle => simp [bind, Except.bind]

theorem bind_of_eq_ok {outcome : Except E A} {middle : A} (made : outcome = .ok middle)
    (next : A → Except E B) : (outcome >>= next) = next middle := by
  rw [made]
  rfl

/-- A change of the value does not make a computation fail. -/
theorem map_eq_ok_iff {outcome : Except E A} {change : A → B} {value : B} :
    outcome.map change = .ok value ↔ ∃ middle, outcome = .ok middle ∧ change middle = value := by
  cases outcome with
  | error fault => simp [Except.map]
  | ok middle => simp [Except.map]

/-- A change of the fault does not make a computation succeed. -/
theorem mapError_eq_ok_iff {outcome : Except E A} {change : E → F} {value : A} :
    outcome.mapError change = .ok value ↔ outcome = .ok value := by
  cases outcome <;> simp [Except.mapError]

/-- The faults of two steps are changed step by step. -/
theorem mapError_bind (outcome : Except E A) (next : A → Except E B) (change : E → F) :
    (outcome >>= next).mapError change =
      outcome.mapError change >>= fun middle => (next middle).mapError change := by
  cases outcome <;> rfl

theorem mapError_map (outcome : Except E A) (rename : A → B) (change : E → F) :
    (outcome.map rename).mapError change = (outcome.mapError change).map rename := by
  cases outcome <;> rfl

/-- A list is worked through when each of its members is. -/
theorem mapM_eq_ok_iff {step : A → Except E B} {inputs : List A} {values : List B} :
    inputs.mapM step = .ok values ↔
      List.Forall₂ (fun input value => step input = .ok value) inputs values := by
  induction inputs generalizing values with
  | nil => cases values <;> simp [pure, Except.pure]
  | cons input rest inductionHypothesis =>
      rw [List.mapM_cons, bind_eq_ok_iff]
      cases values with
      | nil =>
          constructor
          · intro steps
            obtain ⟨first, -, later⟩ := steps
            obtain ⟨others, -, equation⟩ := bind_eq_ok_iff.mp later
            cases equation
          · intro paired
            cases paired
      | cons value values =>
          rw [List.forall₂_cons, ← inductionHypothesis]
          constructor
          · intro steps
            obtain ⟨first, own, later⟩ := steps
            obtain ⟨others, remaining, equation⟩ := bind_eq_ok_iff.mp later
            cases equation
            exact ⟨own, remaining⟩
          · intro steps
            obtain ⟨own, remaining⟩ := steps
            exact ⟨value, own, bind_eq_ok_iff.mpr ⟨values, remaining, rfl⟩⟩

theorem bind_eq_error_iff {outcome : Except E A} {next : A → Except E B} {fault : E} :
    (outcome >>= next) = .error fault ↔
      outcome = .error fault ∨ ∃ middle, outcome = .ok middle ∧ next middle = .error fault := by
  cases outcome with
  | error other => simp [bind, Except.bind]
  | ok middle => simp [bind, Except.bind]

/-- A list fails with its first member that does. -/
theorem mapM_eq_error_iff {step : A → Except E B} {inputs : List A} {fault : E} :
    inputs.mapM step = .error fault ↔
      ∃ before input after, inputs = before ++ input :: after ∧
        (∀ earlier ∈ before, ∃ value, step earlier = .ok value) ∧ step input = .error fault := by
  induction inputs with
  | nil =>
      constructor
      · intro failed
        cases failed
      · intro split
        obtain ⟨before, input, after, whole, -⟩ := split
        simp at whole
  | cons first rest inductionHypothesis =>
      rw [List.mapM_cons, bind_eq_error_iff]
      constructor
      · intro failed
        obtain own | ⟨value, own, later⟩ := failed
        · exact ⟨[], first, rest, rfl, by simp, own⟩
        · obtain remaining | ⟨values, -, equation⟩ := bind_eq_error_iff.mp later
          · obtain ⟨before, input, after, rfl, earlier, failed⟩ :=
              inductionHypothesis.mp remaining
            exact ⟨first :: before, input, after, rfl,
              List.forall_mem_cons.mpr ⟨⟨value, own⟩, earlier⟩, failed⟩
          · cases equation
      · intro split
        obtain ⟨before, input, after, whole, earlier, failed⟩ := split
        cases before with
        | nil =>
            cases whole
            exact Or.inl failed
        | cons other front =>
            cases whole
            obtain ⟨⟨value, own⟩, others⟩ := List.forall_mem_cons.mp earlier
            refine Or.inr ⟨value, own, bind_eq_error_iff.mpr (Or.inl ?_)⟩
            exact inductionHypothesis.mpr ⟨front, input, after, rfl, others, failed⟩

theorem map_eq_error_iff {outcome : Except E A} {change : A → B} {fault : E} :
    outcome.map change = .error fault ↔ outcome = .error fault := by
  cases outcome <;> simp [Except.map]

theorem mapError_eq_error_iff {outcome : Except E A} {change : E → F} {fault : F} :
    outcome.mapError change = .error fault ↔
      ∃ own, outcome = .error own ∧ change own = fault := by
  cases outcome <;> simp [Except.mapError]

/-- Each member of the first list has a partner. -/
theorem exists_of_mem_left {Fits : A → B → Prop} {inputs : List A} {values : List B} {input : A}
    (paired : List.Forall₂ Fits inputs values) (member : input ∈ inputs) :
    ∃ value, Fits input value := by
  induction paired with
  | nil => cases member
  | cons own _ inductionHypothesis =>
      obtain rfl | later := List.mem_cons.mp member
      · exact ⟨_, own⟩
      · exact inductionHypothesis later

/-- A step that the given change undoes, and whose values all meet a condition, works the same way
on lists. -/
theorem mapM_eq_ok_iff_map {step : A → Except E B} {undo : B → A} {Fits : B → Prop}
    (undone : ∀ input value, step input = .ok value ↔ undo value = input ∧ Fits value)
    {inputs : List A} {values : List B} :
    inputs.mapM step = .ok values ↔ values.map undo = inputs ∧ ∀ value ∈ values, Fits value := by
  rw [mapM_eq_ok_iff]
  simp only [undone]
  constructor
  · intro paired
    induction paired with
    | nil => simp
    | cons own _ inductionHypothesis =>
        exact ⟨by rw [List.map_cons, own.1, inductionHypothesis.1],
          List.forall_mem_cons.mpr ⟨own.2, inductionHypothesis.2⟩⟩
  · intro undoing
    obtain ⟨rfl, fit⟩ := undoing
    rw [List.forall₂_map_left_iff, List.forall₂_same]
    exact fun value member => ⟨rfl, fit value member⟩

/-- Two lists that agree step by step are worked through alike. -/
theorem mapM_congr {first : A → Except E C} {second : B → Except E C} {inputs : List A}
    {others : List B} (same : List.Forall₂ (fun input other => first input = second other)
      inputs others) : inputs.mapM first = others.mapM second := by
  induction same with
  | nil => rfl
  | cons own _ inductionHypothesis =>
      rw [List.mapM_cons, List.mapM_cons, own, inductionHypothesis]

/-- The faults of many steps are changed step by step. -/
theorem mapM_mapError (step : A → Except E B) (change : E → F) (inputs : List A) :
    (inputs.mapM step).mapError change = inputs.mapM fun input => (step input).mapError change := by
  induction inputs with
  | nil => rfl
  | cons input rest inductionHypothesis =>
      rw [List.mapM_cons, List.mapM_cons, mapError_bind]
      congr 1
      funext value
      rw [mapError_bind, inductionHypothesis]
      rfl

end Rhythm.Outcome
