import CapLiveness.Proofs.LeastSolution

/-!
# Reading solved results

The result of an analysis that was not skipped holds, in each of its cells, exactly
the kinds that flow there (`Result.IsSolved`). This is all that later proofs use of
the solver.

Results are read by ids and not by cells, and an id may have no set. The ids of
functions and blocks of the program have one, and it is that of their cell, in
skipped results too (`Result.Covers`). What a block or function uses itself depends
on the program alone (`localUses?_eq`, `mem_own_requiredIn`), and so does which
functions are opaque (`isOpaque_iff`).
-/

set_option autoImplicit false

namespace CapLiveness

theorem entryAt?_map {α β : Type} (entries : Array α) (f : α → β) (index : Int) :
    entryAt? (entries.map f) index = (entryAt? entries index).map f := by
  cases index with
  | ofNat i => exact Array.getElem?_map
  | negSucc i => rfl

theorem Tables.entryAt?_column (t : Tables) (field : Field) {i : Nat}
    (bound : i < (t.column field).size) :
    entryAt? (t.column field) (Int.ofNat i) = some (t.get ⟨field, i⟩) := by
  simp [entryAt?, get, Array.getD_eq_getD_getElem?, bound]

/-- Defaults at the end of a table change no entry. -/
theorem getD_append_defaults {α : Type} (entries : Array α) (default : α) (i : Nat) :
    (entries ++ #[default, default]).getD i default = entries.getD i default := by
  rw [Array.getD_eq_getD_getElem?, Array.getD_eq_getD_getElem?, Array.getElem?_append]
  split
  case isTrue => rfl
  case isFalse outside =>
    rw [Array.getElem?_eq_none (Nat.not_lt.mp outside)]
    rcases i - entries.size with _ | _ | _ <;> rfl

/-- A result that holds what flows in a well-formed program. -/
structure Result.IsSolved (r : Result) (p : Program) : Prop where
  wellFormed : p.WellFormed
  setting : r.setting = p.setting
  sized : ∀ field, (r.tables.column field).size = (p.setting.initialTables.column field).size
  mem_get : ∀ {cell : Cell} {k : Nat}, k ∈ r.tables.get cell ↔ p.setting.Flows k cell
  dropEnd : r.dropEnd = p.setting.dropsAtEnd r.tables
  dropStart : r.dropStart = p.setting.dropsAtStart r.tables
  entryDrop : r.entryDrop = p.setting.dropAtEntry r.tables

/-! ## Uses -/

namespace Block

theorem mem_foldl_uses {arguments : List Argument} {caps : Enumeration} {start : CapSet} {k : Nat} :
    k ∈ arguments.foldl
        (fun used argument =>
          match argument with
          | .constant value =>
            if 0 ≤ value ∧ value < caps.size then used.insert value.toNat else used
          | .variable => used)
        start ↔
      k ∈ start ∨ (.constant (Int.ofNat k) ∈ arguments ∧ k ∈ caps.all) := by
  induction arguments generalizing start with
  | nil => simp
  | cons argument rest ih =>
    rw [List.foldl_cons, ih, List.mem_cons]
    rcases argument with value | _
    · simp only [Argument.constant.injEq, Enumeration.all, CapSet.mem_below]
      split
      case isTrue inside =>
        rw [CapSet.mem_insert]
        grind
      case isFalse outside => grind
    · simp

/-- A block uses its constant arguments in the enumeration. -/
theorem mem_localUses {block : Block} {caps : Enumeration} {k : Nat} :
    k ∈ block.localUses caps ↔ .constant (Int.ofNat k) ∈ block.arguments ∧ k ∈ caps.all := by
  exact mem_foldl_uses.trans (by simp)

end Block

/-- Whether an argument is a kind of an enumeration. -/
def Argument.IsKind (caps : Enumeration) : Argument → Prop
  | .constant value => 0 ≤ value ∧ value < caps.size
  | .variable => False

/-- Whether a block has no structural error: it does not unwind, and its arguments are
kinds. -/
def Block.IsRegular (block : Block) (caps : Enumeration) : Prop :=
  block.exit ≠ .unwind ∧ ∀ argument ∈ block.arguments, argument.IsKind caps

namespace Program

variable {p : Program}

/-- An analysis that is not skipped is solved. -/
theorem isSolved_of_outcome {σ : Type} {source : Source σ} {choices : σ} {config : Config}
    {r : Result} (analyzed : (p.analyzeWith source choices config).outcome = .ok r)
    (notSkipped : r.skipped = false) : r.IsSolved p := by
  obtain ⟨wf, ⟨_, rfl⟩ | ⟨_, rfl⟩⟩ := outcome_cases analyzed
  · cases notSkipped
  · exact ⟨wf, rfl, (wf.invariant_solve source config.order choices).1.sized, wf.mem_solve_iff,
      rfl, rfl, rfl⟩

/-- The result of an analysis is solved, or there was nothing to analyze. -/
theorem solved_or_skipped {σ : Type} {source : Source σ} {choices : σ} {config : Config}
    {r : Result} (analyzed : (p.analyzeWith source choices config).outcome = .ok r) :
    r.IsSolved p ∨ (p.WellFormed ∧ r = p.bareSetting.skippedResult) := by
  obtain ⟨wf, ⟨_, skipped⟩ | ⟨_, isResult⟩⟩ := outcome_cases analyzed
  · exact .inr ⟨wf, skipped⟩
  · exact .inl (isSolved_of_outcome analyzed (by rw [isResult]; rfl))

/-- Where functions are given up on one by one, the analysis always has a result. -/
theorem exists_result {σ : Type} {source : Source σ} {choices : σ} {config : Config}
    (valid : p.validate = none) (raises : p.hasRaisePrimitive = true)
    (lenient : config.strictness = .function) :
    ∃ r, (p.analyzeWith source choices config).outcome = .ok r ∧ r.skipped = false := by
  have extracted : Uses.extract config.strictness p = .ok (Uses.ofProgram p) := by
    rw [lenient]
    rfl
  exact ⟨_, outcome_of_extract valid raises extracted, rfl⟩

theorem isSolved_of_lenient {σ : Type} {source : Source σ} {choices : σ} {config : Config}
    (valid : p.validate = none) (raises : p.hasRaisePrimitive = true)
    (lenient : config.strictness = .function) {r : Result}
    (analyzed : (p.analyzeWith source choices config).outcome = .ok r) : r.IsSolved p := by
  obtain ⟨_, isResult, notSkipped⟩ : ∃ r, (p.analyzeWith source choices config).outcome = .ok r ∧
    r.skipped = false := exists_result valid raises lenient
  obtain rfl := Except.ok.inj (analyzed.symm.trans isResult)
  exact isSolved_of_outcome analyzed notSkipped

theorem argumentProblem?_eq_none_iff {block : Block} {argument : Argument} {i : Nat} :
    p.argumentProblem? block (argument, i) = none ↔ argument.IsKind p.enumeration := by
  cases argument <;> simp [argumentProblem?, Argument.IsKind]

theorem blockProblems_eq_nil_iff {block : Block} :
    p.blockProblems block = [] ↔ block.IsRegular p.enumeration := by
  rw [blockProblems, List.append_eq_nil_iff, List.filterMap_eq_nil_iff]
  refine and_congr (by simp) ⟨?_, ?_⟩
  · intro none argument member
    obtain ⟨i, bound, rfl⟩ := List.mem_iff_getElem.mp member
    have entry := List.mk_mem_zipIdx_iff_getElem?.mpr (List.getElem?_eq_getElem bound)
    exact argumentProblem?_eq_none_iff.mp (none _ entry)
  · rintro kinds ⟨argument, i⟩ member
    exact argumentProblem?_eq_none_iff.mpr (kinds argument (List.fst_mem_of_mem_zipIdx member))

theorem functionProblems_eq_nil_iff {function : Function} :
    p.functionProblems function = [] ↔
      ∀ b ∈ function.blocks, ∀ block, p.block? b = some block → block.IsRegular p.enumeration := by
  simp only [functionProblems, List.flatMap_eq_nil_iff, List.mem_filterMap,
    blockProblems_eq_nil_iff]
  constructor
  · intro regular b listed block found
    exact regular block ⟨b, listed, found⟩
  · rintro regular block ⟨b, listed, found⟩
    exact regular b listed block found

theorem isOpaque_eq_getD {slot : Nat} : p.setting.uses.isOpaque slot =
    (p.functions.map fun f => !(p.functionProblems f).isEmpty).getD slot false :=
  getD_append_defaults _ _ _

/-- Opaque functions are those with a block that has a structural error. -/
theorem isOpaque_iff {slot : Nat} :
    p.setting.uses.isOpaque slot = true ↔
      ∃ function, p.functions[slot]? = some function ∧ ∃ b ∈ function.blocks, ∃ block,
        p.block? b = some block ∧ ¬ block.IsRegular p.enumeration := by
  rw [isOpaque_eq_getD, Array.getD_eq_getD_getElem?, Array.getElem?_map]
  cases p.functions[slot]? with
  | none => simp
  | some function =>
    simp only [Option.map_some, Option.getD_some, Option.some.injEq, exists_eq_left',
      Bool.not_eq_true', List.isEmpty_eq_false_iff, ne_eq, functionProblems_eq_nil_iff,
      not_forall, exists_prop]

theorem mem_functionUses {function : Function} {k : Nat} :
    k ∈ p.functionUses function ↔
      ∃ b ∈ function.blocks, ∃ block, p.block? b = some block ∧
        k ∈ block.localUses p.enumeration := by
  rw [functionUses, mem_foldl_union]
  constructor
  · rintro (none | ⟨block, member, used⟩)
    · exact absurd none (CapSet.not_mem_empty k)
    · obtain ⟨b, listed, found⟩ := List.mem_filterMap.mp member
      exact ⟨b, listed, block, found, used⟩
  · rintro ⟨b, listed, block, found, used⟩
    exact .inr ⟨block, List.mem_filterMap.mpr ⟨b, listed, found⟩, used⟩

/-- What a slot has to contain by itself: an opaque function uses everything, another
what its blocks use, and outside code nothing. -/
theorem mem_own_requiredIn {slot k : Nat} :
    k ∈ p.setting.own ⟨.requiredIn, slot⟩ ↔
      ∃ function, p.functions[slot]? = some function ∧
        if p.setting.uses.isOpaque slot then k ∈ p.setting.program.enumeration.all
        else k ∈ p.functionUses function := by
  have uses : p.setting.own ⟨.requiredIn, slot⟩ =
      (p.functions.map fun f => if !(p.functionProblems f).isEmpty then p.enumeration.all
        else p.functionUses f).getD slot ∅ := getD_append_defaults _ _ _
  rw [uses, isOpaque_eq_getD, Array.getD_eq_getD_getElem?, Array.getD_eq_getD_getElem?,
    Array.getElem?_map, Array.getElem?_map]
  cases p.functions[slot]? with
  | none => simp
  | some function =>
    cases problems : p.functionProblems function <;> simp [problems, setting]

theorem own_liveIn {b : Nat} {block : Block} (found : p.block? (Int.ofNat b) = some block) :
    p.setting.own ⟨.liveIn, b⟩ = block.localUses p.enumeration := by
  have inside : p.blocks[b]? = some block := found
  show (p.blocks.map (·.localUses p.enumeration)).getD b ∅ = _
  simp [Array.getD_eq_getD_getElem?, inside]

/-- Only kinds of the enumeration flow. -/
theorem mem_all_of_flows {k : Nat} {cell : Cell} (flows : p.setting.Flows k cell) :
    k ∈ p.setting.program.enumeration.all := by
  induction flows with
  | all _ member => exact member
  | source _ _ _ ih => exact ih
  | @own cell solved member =>
    obtain ⟨field, index⟩ := cell
    cases field with
    | requiredIn =>
      obtain ⟨function, _, uses⟩ := mem_own_requiredIn.mp member
      split at uses
      · exact uses
      · obtain ⟨_, _, block, _, used⟩ := mem_functionUses.mp uses
        exact (Block.mem_localUses.mp used).2
    | liveIn =>
      obtain ⟨block, found, _⟩ := exists_block_of_solved solved
      rw [own_liveIn found] at member
      exact (Block.mem_localUses.mp member).2
    | requiredOut => exact absurd member (CapSet.not_mem_empty k)
    | returnLive => exact absurd member (CapSet.not_mem_empty k)
    | liveOut => exact absurd member (CapSet.not_mem_empty k)

end Program

/-! ## Sets by id -/

/-- A result with a set for every slot and block of a well-formed program. -/
structure Result.Covers (r : Result) (p : Program) : Prop where
  wellFormed : p.WellFormed
  program : r.program = p
  graph : r.setting.graph = Graph.ofProgram p
  sized : ∀ field, (r.tables.column field).size = (p.setting.initialTables.column field).size

namespace Result.Covers

variable {r : Result} {p : Program} (covers : r.Covers p)
include covers

theorem slot?_eq (f : FunctionId) : r.slot? f = slotOf? p.functions.size f := by
  rw [Result.slot?, covers.graph]
  rfl

theorem slot?_ofNat {i : Nat} (bound : i < p.functions.size) : r.slot? (Int.ofNat i) = some i := by
  rw [covers.slot?_eq]
  exact slotOf?_ofNat bound

theorem requiredIn?_ofNat {i : Nat} (bound : i < p.functions.size) :
    r.requiredIn? (Int.ofNat i) = some (r.tables.get ⟨.requiredIn, i⟩) := by
  rw [Result.requiredIn?, covers.slot?_ofNat bound]
  rfl

theorem returnLive?_ofNat {i : Nat} (bound : i < p.functions.size) :
    r.returnLive? (Int.ofNat i) = some (r.tables.get ⟨.returnLive, i⟩) := by
  rw [Result.returnLive?, covers.slot?_ofNat bound]
  rfl

theorem requiredIn?_callsExternal :
    r.requiredIn? FunctionId.callsExternal =
      some (r.tables.get ⟨.requiredIn, p.setting.graph.callsExternal⟩) := by
  rw [Result.requiredIn?, covers.slot?_eq]
  rfl

theorem requiredIn?_callingExternal :
    r.requiredIn? FunctionId.callingExternal =
      some (r.tables.get ⟨.requiredIn, p.setting.graph.callingExternal⟩) := by
  rw [Result.requiredIn?, covers.slot?_eq]
  rfl

theorem returnLive?_callsExternal :
    r.returnLive? FunctionId.callsExternal =
      some (r.tables.get ⟨.returnLive, p.setting.graph.callsExternal⟩) := by
  rw [Result.returnLive?, covers.slot?_eq]
  rfl

theorem liveIn?_ofNat {b : Nat} {block : Block} (found : p.block? (Int.ofNat b) = some block) :
    r.liveIn? (Int.ofNat b) = some (r.tables.get ⟨.liveIn, b⟩) := by
  apply Tables.entryAt?_column r.tables .liveIn
  rw [covers.sized .liveIn]
  exact (Array.size_map ..).symm ▸ Program.lt_of_block? found

theorem liveOut?_ofNat {b : Nat} {block : Block} (found : p.block? (Int.ofNat b) = some block) :
    r.liveOut? (Int.ofNat b) = some (r.tables.get ⟨.liveOut, b⟩) := by
  apply Tables.entryAt?_column r.tables .liveOut
  rw [covers.sized .liveOut]
  exact (Array.size_map ..).symm ▸ Program.lt_of_block? found

end Result.Covers

theorem Tables.get_empty (slots blocks : Nat) (cell : Cell) :
    (Tables.empty slots blocks).get cell = ∅ := by
  obtain ⟨field, index⟩ := cell
  cases field <;> simp only [get, column, empty, Array.getD_eq_getD_getElem?,
    Array.getElem?_replicate] <;> split <;> rfl

namespace Program

variable {p : Program}

theorem covers_skippedResult (wf : p.WellFormed) : p.bareSetting.skippedResult.Covers p := by
  refine ⟨wf, rfl, rfl, ?_⟩
  intro field
  cases field with
  | requiredIn | requiredOut | returnLive => rfl
  | liveIn | liveOut => exact Array.size_replicate.trans (Array.size_map ..).symm

/-- Every set of a skipped result is empty. -/
theorem get_skippedResult (cell : Cell) : p.bareSetting.skippedResult.tables.get cell = ∅ :=
  Tables.get_empty _ _ cell

end Program

namespace Result.IsSolved

variable {r : Result} {p : Program} (solved : r.IsSolved p)
include solved

theorem program_eq : r.program = p := congrArg Setting.program solved.setting

theorem covers : r.Covers p :=
  ⟨solved.wellFormed, solved.program_eq, congrArg Setting.graph solved.setting, solved.sized⟩

theorem isOpaque?_ofNat {i : Nat} (bound : i < p.functions.size) :
    r.isOpaque? (Int.ofNat i) = some (p.setting.uses.isOpaque i) := by
  rw [Result.isOpaque?, solved.covers.slot?_ofNat bound, solved.setting]
  rfl

theorem entryDrop_eq {i : Nat} (isEntry : p.entry = Int.ofNat i) (bound : i < p.functions.size) :
    r.entryDrop = p.enumeration.all \ r.tables.get ⟨.requiredIn, i⟩ := by
  have slot : slotOf? p.setting.graph.functionCount p.setting.program.entry = some i :=
    isEntry ▸ slotOf?_ofNat bound
  rw [solved.entryDrop, Setting.dropAtEntry, Setting.requirement, slot]
  rfl

theorem localUses?_eq (b : BlockId) :
    r.localUses? b = (p.block? b).map (·.localUses p.enumeration) := by
  rw [Result.localUses?, solved.setting]
  exact entryAt?_map p.blocks _ b

theorem localUses?_of_found {b : BlockId} {block : Block} (found : p.block? b = some block) :
    r.localUses? b = some (block.localUses p.enumeration) := by
  rw [solved.localUses?_eq, found]
  rfl

theorem mem_functionUses_iff {function : Function} {k : Nat} :
    k ∈ p.functionUses function ↔
      ∃ b ∈ function.blocks, ∃ used, r.localUses? b = some used ∧ k ∈ used := by
  rw [Program.mem_functionUses]
  refine exists_congr fun b => and_congr_right fun _ => ?_
  rw [solved.localUses?_eq]
  cases p.block? b <;> simp

end Result.IsSolved

/-- The result of an analysis has a set for every function and block. -/
theorem Program.covers_of_outcome {p : Program} {σ : Type} {source : Source σ} {choices : σ}
    {config : Config} {r : Result}
    (analyzed : (p.analyzeWith source choices config).outcome = .ok r) : r.Covers p := by
  rcases solved_or_skipped analyzed with solved | ⟨wf, rfl⟩
  · exact solved.covers
  · exact covers_skippedResult wf

/-! ## A sample -/

/-- A configuration that gives up on functions with errors, one by one. -/
def sampleConfig : Config := { strictness := .function }

theorem sampleProgram_analyzed :
    ∃ r, (sampleProgram.analyze sampleConfig).outcome = .ok r ∧ r.skipped = false :=
  Program.exists_result rfl rfl rfl

/-- The sample program as a more precise tool describes it: the branch to the unknown call is
never taken and its block calls nothing, the callback cannot be entered from outside, and
no function is given up on. -/
def tameProgram : Program :=
  { sampleProgram with
    functions := sampleProgram.functions.setIfInBounds 2
      { id := 2, name := "callback", blocks := [8], exit := 8 }
    blocks := ((sampleProgram.blocks.setIfInBounds 0
        { id := 0, function := 0, successors := [1] }).setIfInBounds 2
        { id := 2, function := 0, successors := [3] }).setIfInBounds 9
        { id := 9, function := 3, exit := .return } }

theorem tameProgram_analyzed :
    ∃ r, (tameProgram.analyze sampleConfig).outcome = .ok r ∧ r.skipped = false :=
  Program.exists_result rfl rfl rfl

end CapLiveness
