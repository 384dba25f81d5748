import CapLiveness.Proofs.Checked.Solver
import CapLiveness.Proofs.Drops
import CapLiveness.Proofs.Verification

/-!
# The analysis, with checked lookups

The drop sets are derived from solved tables edge by edge, and the whole analysis is put
together from the checked graph, the checked extraction and the checked solver. For a
well-formed program it gives the report of the analysis (`analyze_eq_some`), whatever the
configuration.

A result of the analysis fits its program (`ResultFits`). This is what reports on results
rely on.
-/

set_option autoImplicit false

namespace CapLiveness.Checked

variable {σ : Type}

/-! ## Drop sets -/

/-- The blocks of functions that are not opaque, with their positions. -/
def openBlocks (s : Setting) : Option (List (Block × Nat)) :=
  filter (fun entry => (entryAt? s.uses.opaqueSlots entry.1.function).map (!·))
    s.program.blockEntries

/-- What a block of a function that is not opaque can revoke before it is left. -/
def dropAtEnd (t : Tables) (entry : Block × Nat) : Option (BlockId × CapSet) := do
  let before ← read t ⟨.liveIn, entry.2⟩
  let after ← read t ⟨.liveOut, entry.2⟩
  some (entry.1.id, before \ after)

/-- What can be revoked on the way from a block of a function that is not opaque to each of
its successors. -/
def dropsOnEdges (t : Tables) (entry : Block × Nat) : Option (List (BlockId × CapSet)) :=
  entry.1.successors.mapM fun successor => do
    let after ← read t ⟨.liveOut, entry.2⟩
    let before ← entryAt? t.liveIn successor
    some (successor, after \ before)

/-- Drop sets of blocks, collected by block. -/
def collect (count : Nat) (drops : List (BlockId × CapSet)) : Drops :=
  .ofBlocks count fun b => CapLiveness.unionOf (drops.filter (·.1 == Int.ofNat b)) (·.2)

/-- The drop sets at the ends of the blocks. -/
def dropsAtEnd (s : Setting) (t : Tables) : Option Drops := do
  let blocks ← openBlocks s
  let drops ← blocks.mapM (dropAtEnd t)
  some (collect s.program.blocks.size drops)

/-- The drop sets at the starts of the blocks. -/
def dropsAtStart (s : Setting) (t : Tables) : Option Drops := do
  let blocks ← openBlocks s
  let drops ← blocks.mapM (dropsOnEdges t)
  some (collect s.program.blocks.size drops.flatten)

/-- What a function may need from its entry on, by its id. -/
def requirement (s : Setting) (t : Tables) (f : FunctionId) : Option CapSet := do
  let slot ← slotOf? s.graph.functionCount f
  read t ⟨.requiredIn, slot⟩

/-- What can be revoked when the process starts. -/
def dropAtEntry (s : Setting) (t : Tables) : Option CapSet :=
  (requirement s t s.program.entry).map s.program.enumeration.complement

theorem collect_eq {count : Nat} {drops : List (BlockId × CapSet)} {set : Nat → CapSet}
    (same : ∀ b < count, ∀ k, (∃ kinds, (Int.ofNat b, kinds) ∈ drops ∧ k ∈ kinds) ↔ k ∈ set b) :
    collect count drops = .ofBlocks count set := by
  have sets : ∀ b < count,
      CapLiveness.unionOf (drops.filter (·.1 == Int.ofNat b)) (·.2) = set b := by
    intro b bound
    apply CapSet.ext_mem
    intro k
    rw [mem_unionOf, ← same b bound k]
    simp
  simp only [collect, Drops.ofBlocks, Drops.mk.injEq]
  refine List.filterMap_congr ?_
  intro b member
  rw [sets b (List.mem_range.mp member)]

variable {s : Setting} {t : Tables}

theorem openBlocks_eq_some (fits : Fits s) : openBlocks s = some s.openBlocks := by
  refine filter_eq_some ?_
  rintro ⟨block, b⟩ member
  rw [fits.isOpaqueOwner (Program.mem_blockEntries.mp member), Option.map_some]

theorem dropsAtEnd_eq_some (fits : Fits s) (sized : Sized s t) :
    dropsAtEnd s t = some (s.dropsAtEnd t) := by
  have ends : s.openBlocks.mapM (dropAtEnd t) = some (s.openBlocks.map fun entry =>
      (entry.1.id, t.get ⟨.liveIn, entry.2⟩ \ t.get ⟨.liveOut, entry.2⟩)) := by
    refine mapM_eq_some ?_
    rintro ⟨block, b⟩ member
    have bound := (Setting.mem_openBlocks.mp member).2.1
    rw [dropAtEnd, read_eq_some sized ⟨.liveIn, b⟩ bound, read_eq_some sized ⟨.liveOut, b⟩ bound]
    rfl
  rw [dropsAtEnd, openBlocks_eq_some fits, Option.bind_eq_bind, Option.bind_some, ends,
    Option.bind_eq_bind, Option.bind_some, Option.some.injEq]
  refine collect_eq ?_
  intro b bound k
  simp only [List.mem_map, Prod.mk.injEq, Setting.dropAtEnd]
  constructor
  · rintro ⟨_, ⟨⟨block, i⟩, member, isId, rfl⟩, dropped⟩
    obtain ⟨found, _, isOpen⟩ := Setting.mem_openBlocks.mp member
    obtain rfl : i = b :=
      Int.ofNat.inj ((fits.wellFormed.block (b := Int.ofNat i) found).id.symm.trans isId)
    simpa [isOpen] using dropped
  · intro dropped
    split at dropped
    case isTrue => exact absurd dropped (CapSet.not_mem_empty k)
    case isFalse isOpen =>
      have found : s.block? b = some s.program.blocks[b] := Array.getElem?_eq_getElem bound
      have member := Setting.mem_openBlocks.mpr ⟨found, bound, (Bool.not_eq_true _).mp isOpen⟩
      exact ⟨_, ⟨_, member, (fits.wellFormed.block (b := Int.ofNat b) found).id, rfl⟩, dropped⟩

theorem dropsAtStart_eq_some (fits : Fits s) (sized : Sized s t) :
    dropsAtStart s t = some (s.dropsAtStart t) := by
  have edges : s.openBlocks.mapM (dropsOnEdges t) = some (s.openBlocks.map fun entry =>
      entry.1.successors.map fun successor =>
        (successor, t.get ⟨.liveOut, entry.2⟩ \ t.get ⟨.liveIn, successor.toNat⟩)) := by
    refine mapM_eq_some ?_
    rintro ⟨block, b⟩ member
    obtain ⟨found, bound, _⟩ := Setting.mem_openBlocks.mp member
    refine mapM_eq_some ?_
    intro successor follows
    obtain ⟨next, rfl, inside⟩ := fits.exists_successor found follows
    have before : entryAt? t.liveIn (Int.ofNat next) = some (t.get ⟨.liveIn, next⟩) :=
      read_eq_some sized ⟨.liveIn, next⟩ inside
    rw [read_eq_some sized ⟨.liveOut, b⟩ bound, before]
    rfl
  rw [dropsAtStart, openBlocks_eq_some fits, Option.bind_eq_bind, Option.bind_some, edges,
    Option.bind_eq_bind, Option.bind_some, Option.some.injEq, ← List.flatMap_def]
  refine collect_eq ?_
  intro b bound k
  simp only [List.mem_flatMap, List.mem_map, Prod.mk.injEq, Setting.dropAtStart, mem_unionOf,
    List.mem_filter]
  rw [fits.graph]
  constructor
  · rintro ⟨_, ⟨⟨block, i⟩, member, _, follows, rfl, rfl⟩, dropped⟩
    obtain ⟨found, _, isOpen⟩ := Setting.mem_openBlocks.mp member
    exact ⟨i, ⟨Program.mem_predecessorsOf.mpr ⟨bound, block, found, follows⟩, by simp [isOpen]⟩,
      dropped⟩
  · rintro ⟨i, ⟨predecessor, isOpen⟩, dropped⟩
    obtain ⟨_, block, found, follows⟩ := Program.mem_predecessorsOf.mp predecessor
    have member :=
      Setting.mem_openBlocks.mpr ⟨found, Program.lt_of_block? found, by simpa using isOpen⟩
    exact ⟨_, ⟨_, member, _, follows, rfl, rfl⟩, dropped⟩

theorem requirement_entry (fits : Fits s) (sized : Sized s t) :
    requirement s t s.program.entry = some (s.requirement t s.program.entry) := by
  obtain ⟨function, found, _⟩ := fits.wellFormed.entry
  obtain ⟨i, isEntry, inside⟩ := entryAt?_eq_some_iff.mp found
  have bound : i < s.graph.functionCount := by
    rw [fits.functionCount]
    exact Program.lt_of_function? inside
  have slot : slotOf? s.graph.functionCount s.program.entry = some i := by
    rw [isEntry]
    exact slotOf?_ofNat bound
  simp only [requirement, Setting.requirement, slot, Option.bind_eq_bind, Option.bind_some]
  exact read_eq_some sized _ (Nat.lt_add_right 2 bound)

theorem dropAtEntry_eq_some (fits : Fits s) (sized : Sized s t) :
    dropAtEntry s t = some (s.dropAtEntry t) := by
  rw [dropAtEntry, requirement_entry fits sized]
  rfl

/-! ## The analysis -/

/-- The counts of a run. -/
def stats (s : Setting) (visits updates : Nat) : Option Stats :=
  (s.graph.callers[s.graph.callsExternal]?).map fun sites =>
    { s.stats visits updates with externalCalls := sites.length }

/-- The result of solved equations. -/
def resultOf (s : Setting) (solved : State σ) : Option Result := do
  let dropEnd ← dropsAtEnd s solved.tables
  let dropStart ← dropsAtStart s solved.tables
  let entryDrop ← dropAtEntry s solved.tables
  let stats ← stats s solved.visits solved.updates
  some
    { setting := s
      tables := solved.tables
      skipped := false
      dropEnd := dropEnd
      dropStart := dropStart
      entryDrop := entryDrop
      diagnostics := s.uses.diagnostics
      stats := stats
      trace := solved.trace.toList }

/-- Analyzes a program that passes validation and refers to the raise primitive. -/
def analyzeUses (source : Source σ) (choices : σ) (config : Config) (s : Setting) :
    Option Report := do
  let extracted ← extract config.strictness s.program
  match extracted with
  | .error problem => some ⟨[s.extractionRecord], .error problem⟩
  | .ok uses =>
    let s := { s with uses := uses }
    let solved ← solve s source config.order choices
    let result ← resultOf s solved
    some ⟨s.extractionRecord :: s.opaqueRecords ++ s.indirectRecords ++ s.externalRecords ++
        [Setting.finishedRecord result],
      .ok result⟩

/-- Analyzes a program, with any source of choices. -/
def analyzeWith (source : Source σ) (choices : σ) (config : Config) (p : Program) :
    Option Report :=
  match p.validate with
  | some cause =>
    some ⟨[],
      .error (.analysis .invalidStructure ⟨"", ""⟩ "program fails validation" (some cause))⟩
  | none => do
    let graph ← graph p
    let s : Setting := ⟨p, graph, Uses.none graph.slotCount p.blocks.size⟩
    let stats ← stats s 0 0
    if p.hasRaisePrimitive then analyzeUses source choices config s
    else if config.missingRaise = .fail then
      some ⟨[], .error (.analysis .missingRaise ⟨"", ""⟩
        ("program does not reference " ++ p.primitive) none)⟩
    else some ⟨[s.skippedRecord], .ok { s.skippedResult with stats := stats }⟩

/-- Analyzes a program. A random order is drawn from the seed of the configuration. -/
def analyze (config : Config) (p : Program) : Option Report :=
  analyzeWith Generator.source (Generator.ofSeed config.seed) config p

theorem stats_eq_some (fits : Fits s) (visits updates : Nat) :
    stats s visits updates = some (s.stats visits updates) := by
  have inside : s.graph.callsExternal < s.graph.slotCount := Nat.lt_add_of_pos_right Nat.two_pos
  rw [stats, fits.callers inside]
  rfl

theorem resultOf_eq_some (fits : Fits s) {state : State σ} {solved : Progress σ}
    (stands : Stands s state solved) (sized : Sized s solved.tables) :
    resultOf s state = some (s.resultOf solved) := by
  rw [resultOf, stands.tables, stands.visits, stands.updates, stands.trace,
    dropsAtEnd_eq_some fits sized, dropsAtStart_eq_some fits sized,
    dropAtEntry_eq_some fits sized, stats_eq_some fits]
  rfl

variable {p : Program}

theorem fits_bareSetting (wf : p.WellFormed) : Fits p.bareSetting := by
  refine ⟨wf, rfl, Graph.size_externalSlots p, ?_, ?_, ?_⟩ <;> simp [Program.bareSetting, Uses.none]

theorem analyzeUses_eq_some (wf : p.WellFormed) {source : Source σ} (bounded : source.IsBounded)
    (choices : σ) (config : Config) :
    analyzeUses source choices config p.bareSetting =
      some (Program.analyzeUses source choices config p.bareSetting) := by
  have extraction : extract config.strictness p.bareSetting.program =
      some (Uses.extract config.strictness p.bareSetting.program) := extract_eq_some wf _
  rw [analyzeUses, Program.analyzeUses, extraction, Option.bind_eq_bind, Option.bind_some]
  cases extracted : Uses.extract config.strictness p.bareSetting.program with
  | error problem => rfl
  | ok uses =>
    obtain rfl : uses = Uses.ofProgram p := Uses.eq_ofProgram_of_extract extracted
    obtain ⟨state, found, stands⟩ := exists_solve wf bounded config.order choices
    have solved : solve { p.bareSetting with uses := Uses.ofProgram p } source config.order
        choices = some state := found
    have result : resultOf { p.bareSetting with uses := Uses.ofProgram p } state =
        some (p.setting.resultOf (p.setting.solve source config.order choices)) :=
      resultOf_eq_some (fits_setting wf) stands
        (wf.invariant_solve source config.order choices).1.sized
    simp only [solved, result, Option.bind_eq_bind, Option.bind_some]
    rfl

/-- **A well-formed program is analyzed without a failing lookup,** whatever the
configuration. -/
theorem analyzeWith_eq_some (wf : p.WellFormed) {source : Source σ} (bounded : source.IsBounded)
    (choices : σ) (config : Config) :
    analyzeWith source choices config p = some (p.analyzeWith source choices config) := by
  rw [analyzeWith, Program.analyzeWith]
  cases p.validate with
  | some cause => rfl
  | none =>
    simp only [graph_eq_some wf, Option.bind_eq_bind, Option.bind_some]
    show (stats p.bareSetting 0 0).bind _ = _
    rw [stats_eq_some (fits_bareSetting wf), Option.bind_some]
    split
    · exact analyzeUses_eq_some wf bounded choices config
    · split <;> rfl

/-! ## Results -/

/-- A result with a set for each slot and block of its well-formed program, and with drop
sets for its blocks only. -/
structure ResultFits (r : Result) : Prop where
  fits : Fits r.setting
  sized : Sized r.setting r.tables
  dropEnd : ∀ entry ∈ r.dropEnd.entries, ∃ block, r.program.block? entry.1 = some block
  dropStart : ∀ entry ∈ r.dropStart.entries, ∃ block, r.program.block? entry.1 = some block

theorem exists_block_of_mem_ofBlocks {set : Nat → CapSet} {entry : BlockId × CapSet}
    (member : entry ∈ (Drops.ofBlocks p.blocks.size set).entries) :
    ∃ block, p.block? entry.1 = some block := by
  obtain ⟨b, bound, _, rfl⟩ := Drops.mem_entries_ofBlocks.mp member
  exact ⟨p.blocks[b], Array.getElem?_eq_getElem bound⟩

/-- The results of the analysis fit. -/
theorem resultFits_of_outcome {source : Source σ} {choices : σ} {config : Config} {r : Result}
    (analyzed : (p.analyzeWith source choices config).outcome = .ok r) : ResultFits r := by
  have covers := Program.covers_of_outcome analyzed
  have sizes : ∀ field, (p.setting.initialTables.column field).size =
      (p.bareSetting.initialTables.column field).size := by
    intro field
    cases field <;>
      simp [Setting.initialTables, Tables.column, Tables.empty, Program.setting,
        Program.bareSetting]
  obtain ⟨wf, ⟨_, rfl⟩ | ⟨_, rfl⟩⟩ := Program.outcome_cases analyzed
  · have sized : Sized p.bareSetting p.bareSetting.skippedResult.tables :=
      fun field => (covers.sized field).trans (sizes field)
    exact ⟨fits_bareSetting wf, sized, fun _ member => absurd member List.not_mem_nil,
      fun _ member => absurd member List.not_mem_nil⟩
  · exact ⟨fits_setting wf, covers.sized, fun _ => exists_block_of_mem_ofBlocks,
      fun _ => exists_block_of_mem_ofBlocks⟩

end CapLiveness.Checked
