import CapLiveness.Proofs.Checked.Reachability
import CapLiveness.Proofs.Checked.Reports

/-!
# Lookups never fail on well-formed programs

The tables of the analysis are read and written by number: slots, positions of blocks, and
the ids of functions and blocks that a program contains. A number that has no entry is
passed over by the functions that run. Their checked counterparts fail on it, and so tell
whether it ever happens.

On a program that passes validation it never does (`lookups_succeed`): under every
configuration the analysis and all reports on its result find whatever they look up. The
entities that the solver has pending are slots and blocks at every moment, whichever of
them it takes next. It holds them as numbers, slots below blocks, and a number stands for one
entity.
-/

set_option autoImplicit false

namespace CapLiveness

namespace Program

variable {p : Program}

/-- Entities with equations are slots and blocks, and the numbers of slots come first. -/
theorem slot_or_block_of_mem_initialEntities {entity : Entity}
    (solved : entity ∈ p.setting.initialEntities) :
    (∃ slot < p.functions.size + 2, entity = .function slot ∧
        entity.number (p.functions.size + 2) = slot) ∨
      ∃ (b : Nat) (block : Block), p.block? (Int.ofNat b) = some block ∧ entity = .block b ∧
        entity.number (p.functions.size + 2) = p.functions.size + 2 + b := by
  cases entity with
  | function slot =>
    exact .inl ⟨slot, Setting.function_mem_initialEntities.mp solved, rfl, rfl⟩
  | block b =>
    obtain ⟨block, found, _⟩ := exists_block_of_solved solved
    exact .inr ⟨b, block, found, rfl, rfl⟩

/-- An entity with equations is told from its number. -/
theorem ofNumber_number_of_mem_initialEntities {entity : Entity}
    (solved : entity ∈ p.setting.initialEntities) :
    Entity.ofNumber (p.functions.size + 2) (entity.number (p.functions.size + 2)) = entity := by
  apply Entity.ofNumber_number
  rcases slot_or_block_of_mem_initialEntities solved with
    ⟨slot, bound, rfl, _⟩ | ⟨b, _, _, rfl, _⟩
  · exact bound
  · trivial

/-- Only entities with equations are ever pending. -/
theorem WellFormed.pending_subset {σ : Type} (wf : p.WellFormed) {source : Source σ}
    {order : Order} {choices : σ} {n : Nat} {now : Progress σ}
    (rounds : p.setting.Rounds (p.setting.start source order choices) n now) {entity : Entity}
    (pending : entity ∈ now.pending.items) : entity ∈ p.setting.initialEntities :=
  (wf.invariant_rounds rounds (p.setting.invariant_initial source order choices)).pending entity
    pending

end Program

/-- **Lookups never fail on well-formed programs.** Under every configuration, the analysis
finds what it looks up while it builds the graph, extracts the local uses, solves the
equations and derives the drop sets. So do verification, the reports on live sets, the path
to any block id and every plan, for the result of the analysis. After any number of rounds
of the solver, in whatever order, what is pending is a slot or a block of the program. Its
number is that of the slot, or the number of slots and that of the block, and stands for
nothing else. -/
theorem lookups_succeed {p : Program} (valid : p.validate = none) (config : Config) :
    Checked.analyze config p = some (p.analyze config) ∧
      (∀ r, (p.analyze config).outcome = .ok r →
        Checked.verify r = some r.verify ∧
        Checked.uniqueSets r = some r.uniqueSets ∧
        Checked.exposure r = some r.exposure ∧
        (∀ b, Checked.pathTo r b = some (r.pathTo? b)) ∧
        ∀ options, Checked.plan r options = some (Plan.ofResult r options)) ∧
      ∀ (n : Nat) (now : Progress Generator),
        p.setting.Rounds (p.setting.start Generator.source config.order
          (Generator.ofSeed config.seed)) n now →
        ∀ entity ∈ now.pending.items,
          ((∃ slot < p.functions.size + 2, entity = .function slot ∧
              entity.number (p.functions.size + 2) = slot) ∨
            ∃ (b : Nat) (block : Block), p.block? (Int.ofNat b) = some block ∧ entity = .block b ∧
              entity.number (p.functions.size + 2) = p.functions.size + 2 + b) ∧
          Entity.ofNumber (p.functions.size + 2)
            (entity.number (p.functions.size + 2)) = entity := by
  have wf := Program.wellFormed_of_validate valid
  refine ⟨?_, ?_, ?_⟩
  · exact Checked.analyzeWith_eq_some wf Generator.isBounded_source _ config
  · intro r analyzed
    have fits := Checked.resultFits_of_outcome analyzed
    exact ⟨Checked.verify_eq_some fits, Checked.uniqueSets_eq_some fits,
      Checked.exposure_eq_some fits, Checked.pathTo_eq_some fits, Checked.plan_eq_some fits⟩
  · intro n now rounds entity pending
    have solved := wf.pending_subset rounds pending
    exact ⟨Program.slot_or_block_of_mem_initialEntities solved,
      Program.ofNumber_number_of_mem_initialEntities solved⟩

/-- A configuration that visits entities in a random order. -/
def shuffledConfig : Config := { strictness := .function, order := .random, seed := 7 }

/-- The sample program has a result in a random order, and all lookups succeed: those of the
analysis, those for an id that no block has, and those for a plan. -/
theorem lookups_succeed_sample :
    sampleProgram.validate = none ∧
      Checked.analyze shuffledConfig sampleProgram =
        some (sampleProgram.analyze shuffledConfig) ∧
      ∃ r, (sampleProgram.analyze shuffledConfig).outcome = .ok r ∧
        Checked.verify r = some r.verify ∧ Checked.uniqueSets r = some r.uniqueSets ∧
        Checked.exposure r = some r.exposure ∧ Checked.pathTo r (-7) = some none ∧
        ∀ options, Checked.plan r options = some (Plan.ofResult r options) := by
  have valid : sampleProgram.validate = none := rfl
  obtain ⟨analyzed, reports, _⟩ := lookups_succeed valid shuffledConfig
  obtain ⟨r, isResult, _⟩ : ∃ r, (sampleProgram.analyze shuffledConfig).outcome = .ok r ∧
      r.skipped = false := Program.exists_result rfl rfl rfl
  obtain ⟨verified, sets, exposed, paths, plans⟩ := reports r isResult
  exact ⟨valid, analyzed, r, isResult, verified, sets, exposed, paths (-7), plans⟩

end CapLiveness
