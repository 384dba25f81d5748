import CapLiveness.Analysis.Exposure
import CapLiveness.Proofs.BreadthFirst
import CapLiveness.Proofs.Solved

/-!
# Reachable blocks and the paths to them

Control goes from a block to its successors and, by a call, to the first block of each
function that the call may enter (`Program.StepsTo`). The search of a result takes exactly
these steps (`WellFormed.mem_nextBlocks`), first from the entry function and then from the
functions that can be entered from outside.

So it reaches the blocks to which such steps lead and no others, and the path to a block that
it reports is a shortest one: from the entry function if the block can be reached from
there, and otherwise from a function that can be entered from outside (`search_exact`). A
route from outside to a block of the second kind never touches what the entry function
reaches, so that the second phase of the search loses nothing by leaving it out.
-/

set_option autoImplicit false

namespace CapLiveness

open Relation (ReflTransGen)

namespace Program

/-- Whether a block is the first one of a function. -/
def IsFirstBlock (p : Program) (f : FunctionId) (b : BlockId) : Prop :=
  ∃ function, p.function? f = some function ∧ function.blocks.head? = some b

/-- Whether a block is the first one of the entry function. -/
def IsEntryBlock (p : Program) (b : BlockId) : Prop := p.IsFirstBlock p.entry b

/-- Whether a block is the first one of a function that can be entered from outside. -/
def IsExternalBlock (p : Program) (b : BlockId) : Prop :=
  ∃ f, p.IsExternal f ∧ p.IsFirstBlock f b

/-- **Control may go from one block to another**: to a successor, or to the first block of a
function that the block may enter by its call. -/
def StepsTo (p : Program) (b c : BlockId) : Prop :=
  ∃ block, p.block? b = some block ∧
    (c ∈ block.successors ∨ ∃ f, p.MayEnter block f ∧ p.IsFirstBlock f c)

/-! ## The steps of the search -/

/-- The positions that ids stand for. -/
theorem mem_positions {ids : List BlockId} {b : Nat} :
    b ∈ (ids.filter (0 ≤ ·)).map Int.toNat ↔ Int.ofNat b ∈ ids := by
  simp only [List.mem_map, List.mem_filter, decide_eq_true_eq]
  constructor
  · rintro ⟨id, ⟨member, nonneg⟩, rfl⟩
    rw [Int.ofNat_eq_natCast, Int.toNat_of_nonneg nonneg]
    exact member
  · intro member
    exact ⟨Int.ofNat b, ⟨member, Int.natCast_nonneg b⟩, rfl⟩

variable {p : Program} {s : Setting}

theorem mem_firstBlocks (program : s.program = p) {slot b : Nat} :
    b ∈ s.firstBlocks slot ↔ p.IsFirstBlock (Int.ofNat slot) (Int.ofNat b) := by
  have found : p.function? (Int.ofNat slot) = s.program.functions[slot]? := program ▸ rfl
  unfold Setting.firstBlocks IsFirstBlock
  rw [found]
  cases s.program.functions[slot]? with
  | none => simp
  | some function =>
    dsimp only
    rw [Option.toList_filter, mem_positions, Option.mem_toList]
    simp

namespace WellFormed

variable (wf : p.WellFormed)
include wf

/-- First blocks have positions. -/
theorem exists_position_of_first {f : FunctionId} {b : BlockId} (isFirst : p.IsFirstBlock f b) :
    ∃ i : Nat, b = Int.ofNat i ∧ i < p.blocks.size := by
  obtain ⟨function, found, isFirst⟩ := isFirst
  obtain ⟨_, foundBlock, _⟩ := wf.exists_listed found (List.mem_of_head? isFirst)
  obtain ⟨i, same, inside⟩ := entryAt?_eq_some_iff.mp foundBlock
  exact ⟨i, same, lt_of_block? inside⟩

/-- Steps lead to blocks. -/
theorem exists_position_of_step {b c : BlockId} (step : p.StepsTo b c) :
    ∃ i : Nat, c = Int.ofNat i ∧ i < p.blocks.size := by
  obtain ⟨block, found, successor | ⟨f, _, isFirst⟩⟩ := step
  · obtain ⟨_, foundNext, _⟩ := (wf.block found).successors c successor
    obtain ⟨i, same, inside⟩ := entryAt?_eq_some_iff.mp foundNext
    exact ⟨i, same, lt_of_block? inside⟩
  · exact wf.exists_position_of_first isFirst

variable (program : s.program = p) (graph : s.graph = Graph.ofProgram p)
include program graph

theorem mem_externalRoots {b : Nat} :
    b ∈ s.externalRoots ↔ p.IsExternalBlock (Int.ofNat b) := by
  unfold Setting.externalRoots IsExternalBlock
  rw [graph, List.mem_flatMap]
  constructor
  · rintro ⟨slot, external, isFirst⟩
    exact ⟨_, wf.mem_externalFunctions.mp external, (mem_firstBlocks program).mp isFirst⟩
  · rintro ⟨f, external, function, found, isFirst⟩
    obtain ⟨slot, rfl, _⟩ := entryAt?_eq_some_iff.mp found
    exact ⟨slot, wf.mem_externalFunctions.mpr external,
      (mem_firstBlocks program).mpr ⟨function, found, isFirst⟩⟩

theorem mem_calleeBlocks {b : BlockId} {block : Block} (found : p.block? b = some block)
    (call : block.kind = .call) {c : Nat} :
    c ∈ s.calleeBlocks block ↔ ∃ f, p.MayEnter block f ∧ p.IsFirstBlock f (Int.ofNat c) := by
  -- The slot of outside code stands for the functions that can be entered from there.
  have atSlot : ∀ slot ∈ calleeSlots p.functions.size block.target,
      (c ∈ (if slot = s.graph.callsExternal then s.externalRoots else s.firstBlocks slot) ↔
        ∃ f, p.StandsFor slot f ∧ p.IsFirstBlock f (Int.ofNat c)) := by
    intro slot callee
    rcases (wf.mem_calleeSlots_iff found call).mp callee with target | ⟨_, rfl⟩
    · obtain ⟨function, foundFunction⟩ :=
        exists_of_hasFunction (wf.hasFunction_of_mem_targets found call target)
      have bound := lt_of_function? foundFunction
      have inside : slot ≠ s.graph.callsExternal := by
        rw [graph]
        exact Nat.ne_of_lt bound
      simp only [if_neg inside, mem_firstBlocks program, standsFor_function bound, exists_eq_left]
    · have outside : p.functions.size = s.graph.callsExternal := by rw [graph]; rfl
      simp only [if_pos outside, wf.mem_externalRoots program graph,
        standsFor_outside (Nat.le_refl _), IsExternalBlock]
  have callees : s.callees block = calleeSlots p.functions.size block.target := by
    rw [Setting.callees, graph]
    rfl
  rw [Setting.calleeBlocks, callees, List.mem_flatMap]
  constructor
  · rintro ⟨slot, callee, member⟩
    obtain ⟨f, stands, isFirst⟩ := (atSlot slot callee).mp member
    exact ⟨f, (wf.mayEnter_iff found).mpr ⟨call, slot, callee, stands⟩, isFirst⟩
  · rintro ⟨f, enters, isFirst⟩
    obtain ⟨_, slot, callee, stands⟩ := (wf.mayEnter_iff found).mp enters
    exact ⟨slot, callee, (atSlot slot callee).mpr ⟨f, stands, isFirst⟩⟩

/-- **The search takes the steps of the program.** -/
theorem mem_nextBlocks {b c : Nat} :
    c ∈ s.nextBlocks b ↔ p.StepsTo (Int.ofNat b) (Int.ofNat c) := by
  have same : s.block? b = p.block? (Int.ofNat b) := by rw [Setting.block?, program]; rfl
  unfold Setting.nextBlocks StepsTo
  rw [same]
  cases found : p.block? (Int.ofNat b) with
  | none => simp
  | some block =>
    simp only [Option.some.injEq, exists_eq_left', List.mem_append, mem_positions]
    refine or_congr_right ?_
    split
    case isTrue call => exact wf.mem_calleeBlocks program graph found call
    case isFalse noCall =>
      simp only [List.not_mem_nil, false_iff]
      rintro ⟨f, ⟨call, _⟩, _⟩
      exact noCall call

/-! ## Routes of the search -/

variable {roots : List Nat} {isRoot : BlockId → Prop}
  (isRoots : ∀ b : Nat, b ∈ roots ↔ isRoot (Int.ofNat b))
include isRoots

theorem route_ofNat {path : List Nat} {b : Nat}
    (route : Route (fun a b => b ∈ s.nextBlocks a) (· ∈ roots) path b) :
    Route p.StepsTo isRoot (path.map Int.ofNat) (Int.ofNat b) := by
  induction route with
  | root start => exact .root ((isRoots _).mp start)
  | step _ follows ih =>
    rw [List.map_append]
    exact ih.step ((wf.mem_nextBlocks program graph).mp follows)

variable (positions : ∀ b, isRoot b → ∃ i : Nat, b = Int.ofNat i)
include positions

theorem exists_route_nat {chain : List BlockId} {c : BlockId}
    (route : Route p.StepsTo isRoot chain c) :
    ∃ (path : List Nat) (b : Nat), chain = path.map Int.ofNat ∧ c = Int.ofNat b ∧
      Route (fun a b => b ∈ s.nextBlocks a) (· ∈ roots) path b := by
  induction route with
  | root start =>
    obtain ⟨b, rfl⟩ := positions _ start
    exact ⟨[b], b, rfl, rfl, .root ((isRoots b).mpr start)⟩
  | step _ follows ih =>
    obtain ⟨path, a, rfl, rfl, isRoute⟩ := ih
    obtain ⟨b, rfl, _⟩ := wf.exists_position_of_step follows
    exact ⟨path ++ [b], b, by rw [List.map_append]; rfl, rfl,
      isRoute.step ((wf.mem_nextBlocks program graph).mpr follows)⟩

theorem shortestRoute_ofNat {path : List Nat} {b : Nat}
    (shortest : ShortestRoute (fun a b => b ∈ s.nextBlocks a) (· ∈ roots) path b) :
    ShortestRoute p.StepsTo isRoot (path.map Int.ofNat) (Int.ofNat b) := by
  refine ⟨wf.route_ofNat program graph isRoots shortest.route, ?_⟩
  intro other route
  obtain ⟨path, c, rfl, same, isRoute⟩ :=
    wf.exists_route_nat program graph isRoots positions route
  obtain rfl := Int.ofNat.inj same
  simpa using shortest.le isRoute

end WellFormed

/-! ## The two phases -/

/-- Whether a block is the first one of a function whose address is taken. -/
def IsTakenBlock (p : Program) (b : BlockId) : Prop :=
  ∃ f function, p.function? f = some function ∧ function.addressTaken = true ∧
    function.blocks.head? = some b

theorem entry_or_taken_iff {b : BlockId} :
    p.IsEntryBlock b ∨ p.IsTakenBlock b ↔ p.IsEntryBlock b ∨ p.IsExternalBlock b := by
  constructor
  · rintro (entry | ⟨f, function, found, taken, isFirst⟩)
    · exact .inl entry
    · by_cases isEntry : f = p.entry
      · exact .inl ⟨function, isEntry ▸ found, isFirst⟩
      · exact .inr ⟨f, ⟨isEntry, function, found, taken⟩, function, found, isFirst⟩
  · rintro (entry | ⟨f, ⟨_, function, found, taken⟩, other, foundOther, isFirst⟩)
    · exact .inl entry
    · obtain rfl := Option.some.inj (found.symm.trans foundOther)
      exact .inr ⟨f, function, found, taken, isFirst⟩

/-- **What the search reaches, and on which ways.** -/
theorem WellFormed.reachable_exact (wf : p.WellFormed) (program : s.program = p)
    (graph : s.graph = Graph.ofProgram p) :
    s.reachable.order.Nodup ∧
      (∀ b ∈ s.reachable.order,
        ShortestRoute p.StepsTo p.IsEntryBlock ((s.reachable.way b).map Int.ofNat) (Int.ofNat b) ∨
          ((∀ path, ¬ Route p.StepsTo p.IsEntryBlock path (Int.ofNat b)) ∧
            ShortestRoute p.StepsTo p.IsExternalBlock ((s.reachable.way b).map Int.ofNat)
              (Int.ofNat b))) ∧
      ∀ path b, Route p.StepsTo p.IsEntryBlock path b ∨ Route p.StepsTo p.IsExternalBlock path b →
        ∃ i ∈ s.reachable.order, b = Int.ofNat i := by
  have bound : ∀ {f : FunctionId} {b : Nat}, p.IsFirstBlock f (Int.ofNat b) →
      b < s.program.blocks.size := by
    intro f b isFirst
    obtain ⟨i, same, bound⟩ := wf.exists_position_of_first isFirst
    rw [program, Int.ofNat.inj same]
    exact bound
  have inside : ∀ b, ∀ c ∈ s.nextBlocks b, c < s.program.blocks.size := by
    intro b c follows
    obtain ⟨i, same, bound⟩ :=
      wf.exists_position_of_step ((wf.mem_nextBlocks program graph).mp follows)
    rw [program, Int.ofNat.inj same]
    exact bound
  obtain ⟨entryFunction, foundEntry, _⟩ := wf.entry
  obtain ⟨entry, isEntry, _⟩ := entryAt?_eq_some_iff.mp foundEntry
  have entryRoots : ∀ b : Nat, b ∈ s.firstBlocks s.program.entry.toNat ↔
      p.IsEntryBlock (Int.ofNat b) := by
    intro b
    rw [mem_firstBlocks program, program, IsEntryBlock, isEntry]
    rfl
  have externalRoots : ∀ b : Nat, b ∈ s.externalRoots ↔ p.IsExternalBlock (Int.ofNat b) :=
    fun b => wf.mem_externalRoots program graph
  have entryPositions : ∀ b, p.IsEntryBlock b → ∃ i : Nat, b = Int.ofNat i := fun b isFirst =>
    (wf.exists_position_of_first isFirst).imp fun _ position => position.1
  have externalPositions : ∀ b, p.IsExternalBlock b → ∃ i : Nat, b = Int.ofNat i :=
    fun b ⟨_, _, isFirst⟩ => (wf.exists_position_of_first isFirst).imp fun _ position => position.1
  obtain ⟨nodup, ways, reached⟩ := Search.search_two_phases inside
    (fun b isRoot => bound ((entryRoots b).mp isRoot))
    (fun b isRoot => ((externalRoots b).mp isRoot).elim fun _ external => bound external.2)
    s.reachable rfl rfl
  refine ⟨nodup, ?_, ?_⟩
  · intro b member
    rcases ways b member with early | ⟨notEarly, late⟩
    · exact .inl (wf.shortestRoute_ofNat program graph entryRoots entryPositions early)
    · refine .inr ⟨?_, wf.shortestRoute_ofNat program graph externalRoots externalPositions late⟩
      intro path route
      obtain ⟨path, c, rfl, same, isRoute⟩ :=
        wf.exists_route_nat program graph entryRoots entryPositions route
      obtain rfl := Int.ofNat.inj same
      exact notEarly path isRoute
  · rintro path b (route | route)
    · obtain ⟨path, i, _, same, isRoute⟩ :=
        wf.exists_route_nat program graph entryRoots entryPositions route
      exact ⟨i, reached path i (.inl isRoute), same⟩
    · obtain ⟨path, i, _, same, isRoute⟩ :=
        wf.exists_route_nat program graph externalRoots externalPositions route
      exact ⟨i, reached path i (.inr isRoute), same⟩

end Program

/-- A path is reported for what the search has reached, and it is the way of the search. -/
theorem Result.pathTo?_ofNat (r : Result) (b : Nat) :
    r.pathTo? (Int.ofNat b) =
      if b ∈ r.setting.reachable.order then some (r.setting.reachable.way b) else none := by
  have reached : r.setting.reachable.arrivals.any (·.block == b) = true ↔
      b ∈ r.setting.reachable.order := by
    simp [Search.order]
  have nonneg : 0 ≤ Int.ofNat b := Int.natCast_nonneg b
  rw [Result.pathTo?, if_pos nonneg, Search.pathTo?]
  exact if_congr reached rfl rfl

/-- **The search and its paths are exact.** For the result of any analysis, the search lists
without repeats exactly the blocks to which steps lead from the first block of the entry
function or of a function whose address is taken. It has a path to exactly these blocks. The
path repeats no block. If the block can be reached from the entry function, the path is a
shortest route from there, and otherwise it is a shortest route from the functions that can
be entered from outside. -/
theorem search_exact {p : Program} {config : Config} {r : Result}
    (analyzed : (p.analyze config).outcome = .ok r) :
    (r.setting.reachable.order.map Int.ofNat).Nodup ∧
      (∀ b : BlockId, b ∈ r.setting.reachable.order.map Int.ofNat ↔
        ∃ start, (p.IsEntryBlock start ∨ p.IsTakenBlock start) ∧
          ReflTransGen p.StepsTo start b) ∧
      ∀ b : BlockId,
        (r.pathTo? b = none ↔ b ∉ r.setting.reachable.order.map Int.ofNat) ∧
        ∀ path, r.pathTo? b = some path →
          (path.map Int.ofNat).Nodup ∧
          ((∃ start, p.IsEntryBlock start ∧ ReflTransGen p.StepsTo start b) →
            ShortestRoute p.StepsTo p.IsEntryBlock (path.map Int.ofNat) b) ∧
          ((¬ ∃ start, p.IsEntryBlock start ∧ ReflTransGen p.StepsTo start b) →
            ShortestRoute p.StepsTo p.IsExternalBlock (path.map Int.ofNat) b) := by
  have covers := Program.covers_of_outcome analyzed
  obtain ⟨nodup, ways, reached⟩ := covers.wellFormed.reachable_exact covers.program covers.graph
  refine ⟨(List.nodup_map_iff fun _ _ same => Int.ofNat.inj same).mpr nodup, ?_, ?_⟩
  · intro b
    rw [List.mem_map]
    constructor
    · rintro ⟨i, member, rfl⟩
      rcases ways i member with early | ⟨_, late⟩
      · obtain ⟨start, isRoot, steps⟩ := early.route.reachable
        exact ⟨start, .inl isRoot, steps⟩
      · obtain ⟨start, isRoot, steps⟩ := late.route.reachable
        exact ⟨start, Program.entry_or_taken_iff.mpr (.inr isRoot), steps⟩
    · rintro ⟨start, isRoot, steps⟩
      rcases Program.entry_or_taken_iff.mp isRoot with entry | external
      · obtain ⟨path, route⟩ := exists_route entry steps
        obtain ⟨i, member, same⟩ := reached path b (.inl route)
        exact ⟨i, member, same.symm⟩
      · obtain ⟨path, route⟩ := exists_route external steps
        obtain ⟨i, member, same⟩ := reached path b (.inr route)
        exact ⟨i, member, same.symm⟩
  · intro b
    cases b with
    | negSucc i =>
      refine ⟨?_, fun path found => by cases found⟩
      simp [Result.pathTo?]
    | ofNat i =>
      have position : Int.ofNat i ∈ r.setting.reachable.order.map Int.ofNat ↔
          i ∈ r.setting.reachable.order :=
        List.mem_map_of_injective fun _ _ same => Int.ofNat.inj same
      rw [position, r.pathTo?_ofNat]
      by_cases member : i ∈ r.setting.reachable.order
      · rw [if_pos member]
        refine ⟨by simp [member], ?_⟩
        rintro path isPath
        obtain rfl := Option.some.inj isPath
        rcases ways i member with early | ⟨notEarly, late⟩
        · exact ⟨early.nodup, fun _ => early,
            fun unreached => absurd early.route.reachable unreached⟩
        · refine ⟨late.nodup, ?_, fun _ => late⟩
          rintro ⟨start, isRoot, steps⟩
          obtain ⟨path, route⟩ := exists_route isRoot steps
          exact absurd route (notEarly path)
      · rw [if_neg member]
        exact ⟨by simp [member], nofun⟩

/-! ## A sample -/

/-- The sample program, started in its last function: the worker can only be reached through
the callback. -/
def detachedProgram : Program := { sampleProgram with entry := 3 }

/-- The shortest way to the recursive call of the worker leads through the callback, and the
function in which the sample program started is not reachable any more. -/
theorem search_exact_detached :
    ∃ r, (detachedProgram.analyze sampleConfig).outcome = .ok r ∧
      r.pathTo? 6 = some [8, 5, 6] ∧ r.pathTo? 0 = none ∧
      (¬ ∃ start, detachedProgram.IsTakenBlock start ∧
        ReflTransGen detachedProgram.StepsTo start 0) ∧
      ShortestRoute detachedProgram.StepsTo detachedProgram.IsExternalBlock [8, 5, 6] 6 := by
  obtain ⟨r, analyzed, notSkipped⟩ : ∃ r, (detachedProgram.analyze sampleConfig).outcome = .ok r ∧
      r.skipped = false := Program.exists_result rfl rfl rfl
  have setting := (Program.isSolved_of_outcome analyzed notSkipped).setting
  have path : r.pathTo? 6 = some [8, 5, 6] := by
    rw [Result.pathTo?, setting]
    decide +kernel
  have noPath : r.pathTo? 0 = none := by
    rw [Result.pathTo?, setting]
    decide +kernel
  obtain ⟨_, order, paths⟩ := search_exact analyzed
  refine ⟨r, analyzed, path, noPath, ?_, ((paths 6).2 _ path).2.2 ?_⟩
  · rintro ⟨start, taken, steps⟩
    exact (paths 0).1.mp noPath ((order 0).mpr ⟨start, .inr taken, steps⟩)
  · rintro ⟨start, ⟨function, found, isFirst⟩, steps⟩
    obtain rfl := Option.some.inj found
    obtain rfl : 9 = start := Option.some.inj isFirst
    -- Nothing follows the only block of the entry function.
    rcases steps.cases_head with same | ⟨next, ⟨block, foundBlock, step⟩, _⟩
    · exact absurd same (by decide)
    · obtain rfl := Option.some.inj foundBlock
      rcases step with successor | ⟨_, ⟨call, _⟩, _⟩
      · cases successor
      · cases call

end CapLiveness
