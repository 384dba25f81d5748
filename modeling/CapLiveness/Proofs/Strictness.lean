import CapLiveness.Proofs.Extraction

/-!
# Strictness

Under the strict option the first function with structural errors ends the analysis. Under the
lenient one every such function becomes opaque, and the analysis goes on. The errors that the
strict analysis reports are the first ones among the diagnostics of the lenient analysis: those
of the opaque function with the lowest number (`exists_first_finding`). Where there are no
diagnostics, the two analyses have the same result (`strictness_agrees`).
-/

set_option autoImplicit false

namespace CapLiveness

namespace Program

variable {p : Program}

/-- The outcome of an analysis under a given strictness. -/
def outcomeUnder (p : Program) (config : Config) (strictness : Strictness) :
    Except Problem Result :=
  (p.analyze { config with strictness := strictness }).outcome

theorem extract_of_no_findings {strictness : Strictness} (none : Uses.findingsOf p = []) :
    Uses.extract strictness p = .ok (Uses.ofProgram p) := by
  unfold Uses.extract
  rw [none]
  cases strictness <;> rfl

theorem extract_of_findings {function : Function} {problems : List Problem}
    {rest : List (Function × List Problem)}
    (findings : Uses.findingsOf p = (function, problems) :: rest) :
    Uses.extract .run p = .error (.join problems) := by
  unfold Uses.extract
  rw [findings]

/-- The first finding is that of the function with the lowest number that has errors, and the
errors of the functions behind it follow. -/
theorem exists_first_finding {function : Function} {problems : List Problem}
    {rest : List (Function × List Problem)}
    (findings : Uses.findingsOf p = (function, problems) :: rest) :
    ∃ i, p.function? (Int.ofNat i) = some function ∧ p.functionProblems function = problems ∧
      problems ≠ [] ∧
      (∀ j < i, ∃ before, p.function? (Int.ofNat j) = some before ∧
        p.functionProblems before = []) ∧
      rest.flatMap (·.2) = (p.functions.toList.drop (i + 1)).flatMap p.functionProblems := by
  obtain ⟨_, _, split, clean, faulty, isRest⟩ := List.filter_eq_cons_iff.mp findings
  obtain ⟨early, _, isSplit, rfl, isTail⟩ := List.map_eq_append_iff.mp split
  obtain ⟨first, late, rfl, isFinding, rfl⟩ := List.map_eq_cons_iff.mp isTail
  obtain ⟨rfl, rfl⟩ := Prod.mk.inj isFinding
  have numbered : ∀ j, p.function? (Int.ofNat j) = (early ++ first :: late)[j]? := by
    intro j
    rw [← isSplit, Array.getElem?_toList]
    rfl
  refine ⟨early.length, ?_, rfl, by simpa using faulty, fun j bound => ?_, ?_⟩
  · rw [numbered, List.getElem?_append_right (Nat.le_refl _), Nat.sub_self]
    rfl
  · refine ⟨early[j], ?_, ?_⟩
    · rw [numbered, List.getElem?_append_left bound, List.getElem?_eq_getElem bound]
    · simpa using clean _ (List.mem_map_of_mem (List.getElem_mem bound))
  · rw [← isRest, flatMap_findings, isSplit, List.drop_length_add_append]
    rfl

end Program

/-- **The two options for strictness agree.** They differ in nothing before extraction: a program
that fails validation, or does not refer to the raise primitive, has the same outcome under
both. Otherwise the lenient analysis has a result. If it has no diagnostics, the strict
analysis has the same result. If it has some, the strict analysis has none, and its error joins
the diagnostics of the opaque function with the lowest number, in order. The other diagnostics
are the structural errors of functions with higher numbers. -/
theorem strictness_agrees (p : Program) (config : Config) :
    (∀ cause, p.validate = some cause → ∀ strictness,
      p.outcomeUnder config strictness =
        .error (.analysis .invalidStructure ⟨"", ""⟩ "program fails validation" (some cause))) ∧
    (p.validate = none → p.hasRaisePrimitive = false → ∀ strictness,
      p.outcomeUnder config strictness =
        if config.missingRaise = .fail then
          .error (.analysis .missingRaise ⟨"", ""⟩ ("program does not reference " ++ p.primitive)
            none)
        else .ok p.bareSetting.skippedResult) ∧
    (p.validate = none → p.hasRaisePrimitive = true →
      ∃ r, p.outcomeUnder config .function = .ok r ∧ r.skipped = false ∧
        (r.diagnostics = [] → p.outcomeUnder config .run = .ok r) ∧
        (r.diagnostics ≠ [] → ∃ (i : Nat) (own rest : List Problem),
          r.isOpaque? (Int.ofNat i) = some true ∧
          (∀ j < i, r.isOpaque? (Int.ofNat j) = some false) ∧
          r.diagnostics = own ++ rest ∧ p.outcomeUnder config .run = .error (.join own) ∧
          Lists PartOrder (p.FaultIn (Int.ofNat i)) own ∧
          Lists PlaceOrder (fun place problem => i < place.1 ∧ p.Fault place problem) rest)) := by
  refine ⟨fun cause invalid strictness => Program.outcome_of_invalid invalid,
    fun valid raisesNot strictness => Program.outcome_of_not_raises valid raisesNot,
    fun valid raises => ?_⟩
  have wf := Program.wellFormed_of_validate valid
  obtain ⟨r, lenient, notSkipped⟩ :
      ∃ r, p.outcomeUnder config .function = .ok r ∧ r.skipped = false :=
    Program.exists_result valid raises rfl
  have solved := Program.isSolved_of_outcome lenient notSkipped
  have diagnostics : r.diagnostics = (Uses.findingsOf p).flatMap (·.2) :=
    (Program.reports_of_outcome lenient notSkipped).1
  refine ⟨r, lenient, notSkipped, ?_⟩
  cases findings : Uses.findingsOf p with
  | nil =>
    rw [findings] at diagnostics
    refine ⟨fun _ => ?_, fun some => absurd diagnostics some⟩
    have same : ∀ strictness, p.outcomeUnder config strictness = .ok _ := fun strictness =>
      Program.outcome_of_extract valid raises (Program.extract_of_no_findings findings)
    exact (same .run).trans ((same .function).symm.trans lenient)
  | cons finding rest =>
    obtain ⟨function, own⟩ := finding
    obtain ⟨i, found, rfl, nonempty, clean, isRest⟩ := Program.exists_first_finding findings
    rw [findings, List.flatMap_cons, isRest] at diagnostics
    refine ⟨fun none => ?_, fun _ => ⟨i, _, _, ?_, fun j lower => ?_, diagnostics,
      Program.outcome_of_extract_error valid raises (Program.extract_of_findings findings),
      wf.lists_functionProblems found, wf.lists_drop (i + 1)⟩⟩
    · exact absurd (List.append_eq_nil_iff.mp (diagnostics.symm.trans none)).1 nonempty
    · rw [solved.isOpaque?_of_found found, List.isEmpty_eq_false_iff.mpr nonempty]
      rfl
    · obtain ⟨before, foundBefore, noProblems⟩ := clean j lower
      rw [solved.isOpaque?_of_found foundBefore, noProblems]
      rfl

/-- The strict analysis of the faulty program reports the errors of its second function. -/
theorem strictness_agrees_faulty :
    ∃ r own rest, faultyProgram.outcomeUnder {} .function = .ok r ∧
      faultyProgram.outcomeUnder {} .run = .error (.join own) ∧ r.diagnostics = own ++ rest ∧
      Lists PartOrder (faultyProgram.FaultIn 1) own ∧
      Lists PlaceOrder (fun place problem => 1 < place.1 ∧ faultyProgram.Fault place problem)
        rest := by
  have valid : faultyProgram.validate = none := by decide +kernel
  obtain ⟨r, lenient, notSkipped, _, fails⟩ := (strictness_agrees faultyProgram {}).2.2 valid rfl
  have solved := Program.isSolved_of_outcome lenient notSkipped
  have reported : r.diagnostics ≠ [] := by
    rw [(Program.reports_of_outcome lenient notSkipped).1]
    exact List.ne_nil_of_length_pos (by decide +kernel)
  obtain ⟨i, own, rest, isOpaque, lower, diagnostics, strict, listsOwn, listsRest⟩ := fails reported
  have first : r.isOpaque? (Int.ofNat 0) = some false :=
    (solved.isOpaque?_of_found rfl).trans (by decide +kernel)
  have second : r.isOpaque? (Int.ofNat 1) = some true :=
    (solved.isOpaque?_of_found rfl).trans (by decide +kernel)
  obtain rfl : i = 1 := by
    rcases i with _ | _ | i
    · cases first.symm.trans isOpaque
    · rfl
    · cases second.symm.trans (lower 1 (by omega))
  exact ⟨r, own, rest, lenient, strict, diagnostics, listsOwn, listsRest⟩

end CapLiveness
