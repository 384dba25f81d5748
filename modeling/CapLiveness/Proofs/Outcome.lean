import CapLiveness.Analysis.Result
import CapLiveness.Proofs.Flow

/-!
# Outcomes of an analysis

An analysis that gives a result was run on a well-formed program. Either the
program never refers to the primitive that raises privileges, and the result is
empty, or the result is that of the solved equations in the setting of the program
(`outcome_cases`). Which functions are opaque depends on the program alone: where
extraction succeeds, it finds the same uses under every strictness
(`Uses.eq_ofProgram_of_extract`).
-/

set_option autoImplicit false

namespace CapLiveness

variable {σ : Type} {p : Program}

/-- Where extraction succeeds, it does not depend on the strictness. -/
theorem Uses.eq_ofProgram_of_extract {strictness : Strictness} {uses : Uses}
    (extracted : Uses.extract strictness p = .ok uses) : uses = Uses.ofProgram p := by
  unfold Uses.extract at extracted
  split at extracted
  · cases extracted
  · exact (Except.ok.inj extracted).symm

namespace Program

/-- An analysis of a program that passes validation and refers to the raise
primitive solves the equations, once extraction succeeds. -/
theorem outcome_of_extract {source : Source σ} {choices : σ} {config : Config} {uses : Uses}
    (valid : p.validate = none) (raises : p.hasRaisePrimitive = true)
    (extracted : Uses.extract config.strictness p = .ok uses) :
    (p.analyzeWith source choices config).outcome =
      .ok (p.setting.resultOf (p.setting.solve source config.order choices)) := by
  unfold analyzeWith analyzeUses
  rw [valid]
  simp only [raises, if_true]
  have sameExtraction : Uses.extract config.strictness p.bareSetting.program = .ok uses := extracted
  rw [sameExtraction, Uses.eq_ofProgram_of_extract extracted]
  rfl

/-- An extraction that fails is the outcome. -/
theorem outcome_of_extract_error {source : Source σ} {choices : σ} {config : Config}
    {problem : Problem} (valid : p.validate = none) (raises : p.hasRaisePrimitive = true)
    (failed : Uses.extract config.strictness p = .error problem) :
    (p.analyzeWith source choices config).outcome = .error problem := by
  unfold analyzeWith analyzeUses
  rw [valid]
  simp only [raises, if_true]
  have sameExtraction : Uses.extract config.strictness p.bareSetting.program = .error problem :=
    failed
  rw [sameExtraction]

theorem outcome_of_invalid {source : Source σ} {choices : σ} {config : Config} {cause : Problem}
    (invalid : p.validate = some cause) :
    (p.analyzeWith source choices config).outcome =
      .error (.analysis .invalidStructure ⟨"", ""⟩ "program fails validation" (some cause)) := by
  rw [analyzeWith, invalid]

/-- A program without the raise primitive is refused, or there is nothing to analyze. -/
theorem outcome_of_not_raises {source : Source σ} {choices : σ} {config : Config}
    (valid : p.validate = none) (raisesNot : p.hasRaisePrimitive = false) :
    (p.analyzeWith source choices config).outcome =
      if config.missingRaise = .fail then
        .error (.analysis .missingRaise ⟨"", ""⟩ ("program does not reference " ++ p.primitive)
          none)
      else .ok p.bareSetting.skippedResult := by
  unfold analyzeWith
  rw [valid]
  simp only [raisesNot, Bool.false_eq_true, if_false]
  split <;> rfl

/-- **Results.** -/
theorem outcome_cases {source : Source σ} {choices : σ} {config : Config} {r : Result}
    (analyzed : (p.analyzeWith source choices config).outcome = .ok r) :
    p.WellFormed ∧
      ((p.hasRaisePrimitive = false ∧ r = p.bareSetting.skippedResult) ∨
        (p.hasRaisePrimitive = true ∧
          r = p.setting.resultOf (p.setting.solve source config.order choices))) := by
  cases valid : p.validate with
  | some problem =>
    rw [outcome_of_invalid valid] at analyzed
    cases analyzed
  | none =>
    refine ⟨wellFormed_of_validate valid, ?_⟩
    cases raises : p.hasRaisePrimitive with
    | false =>
      rw [outcome_of_not_raises valid raises] at analyzed
      split at analyzed
      · cases analyzed
      · exact .inl ⟨rfl, (Except.ok.inj analyzed).symm⟩
    | true =>
      cases extracted : Uses.extract config.strictness p with
      | error problem =>
        rw [outcome_of_extract_error valid raises extracted] at analyzed
        cases analyzed
      | ok uses =>
        rw [outcome_of_extract valid raises extracted] at analyzed
        exact .inr ⟨rfl, (Except.ok.inj analyzed).symm⟩

end Program

end CapLiveness
